import Dissection.Filter

/-!
# Requests to a filter

A filter is asked to register, to process records or lines, to replace a setting, and to
show its settings.  It answers each request, and is afterwards as the request left it.  A
filter that is not registered is registered before it processes anything; if that fails,
the record is left alone.

## Main definitions

* `Filter.Request`, `Filter.Response` — what a filter is asked for, and what comes of it.
* `Filter.Refusal` — why a request is not met, or a filter not made.
* `Filter.ofValue`, `Filter.ofArguments` — the filter that a value or arguments describe.
* `Filter.handle` — what a filter does on a request.
-/

namespace Dissection.Filter

/-! ## Refusals -/

/-- Why a request is not met, or a filter not made. -/
inductive Refusal where
  | config (e : Config.Error)
  | arguments (e : Settings.ArgumentError)
  | rule (e : RuleError)
  | fault (f : Fault)
  deriving DecidableEq, Repr

/-! ## Making filters -/

/-- The filter that a value describes: null the usual one, and a map the one with that
configuration. -/
def ofValue : Value → Except Refusal Filter
  | .null => .ok (ofConfig {})
  | .map entries =>
    match Config.ofValue (.map entries) with
    | .ok c => .ok (ofConfig c)
    | .error e => .error (.config e)
  | v => .error (.fault (.misfit (.lacks v.fullKind .conversions)))

/-- The filter whose settings are given by name. -/
def ofArguments (arguments : List (Value × Value)) : Except Refusal Filter :=
  match Settings.ofArguments arguments with
  | .error e => .error (.arguments e)
  | .ok s => (ofSettings s).mapError fun m => .fault (.misfit m)

/-! ## Requests and responses -/

/-- What a filter is asked for. -/
inductive Request where
  | register
  /-- Process a record, if there is one. -/
  | process (r : Option Record)
  | processAll (rs : List Record)
  | dissectLine (line source : Value)
  /-- Give the setting of this name another value. -/
  | assign (name : Text) (v : Value)
  | describe

/-- What a filter gives back. -/
inductive Reply where
  | done
  | processed (s : Summary)
  | records (rs : List Record)
  | settings (v : Value)

/-- What comes of a request: the record that was worked on, the log lines, and the
reply. -/
structure Response where
  record : Option Record := none
  log : List Log.Line := []
  reply : Except Refusal Reply

/-- The response to a request that is not met. -/
def Response.refused (r : Refusal) (record : Option Record) : Response :=
  { record, reply := .error r }

/-- The reply that an outcome comes to. -/
def replyOf {α : Type} (f : α → Reply) : Except Fault α → Except Refusal Reply
  | .ok x => .ok (f x)
  | .error fault => .error (.fault fault)

/-- The response of a registered filter that is to process a record. -/
def respond (f : Filter) (r : Option Record) : Response :=
  match r with
  | some r =>
    let run := f.process.run r
    { record := some run.record, log := run.log, reply := replyOf .processed run.result }
  | none =>
    let (log, result) := f.processNothing
    { log, reply := replyOf .processed result }

/-- The filter that processes a record, if there is one, and its response. -/
def handleRecord (f : Filter) (r : Option Record) : Filter × Response :=
  match f.ready with
  | .ok f => (f, f.respond r)
  | .error e => (f, .refused (.rule e) r)

/-- What a filter does on a request, and the filter afterwards. -/
def handle (f : Filter) (request : Request) : Filter × Response :=
  match request with
  | .register =>
    match f.register with
    | .ok f => (f, { reply := .ok .done })
    | .error e => (f, .refused (.rule e) none)
  | .assign name v =>
    ({ f with settings := f.settings.assign name v }, { reply := .ok .done })
  | .describe =>
    match f.settings.toValue with
    | .ok v => (f, { reply := .ok (.settings v) })
    | .error m => (f, .refused (.fault (.misfit m)) none)
  | .process r => f.handleRecord r
  | .dissectLine line source =>
    match source.key with
    | .ok source => f.handleRecord (some (lineRecord line source))
    | .error m => (f, .refused (.fault (.misfit m)) none)
  | .processAll [] => (f, { reply := .ok (.records []) })
  | .processAll rs =>
    match f.ready with
    | .ok f =>
      let (log, records) := f.processAll rs
      (f, { log, reply := replyOf .records records })
    | .error e => (f, .refused (.rule e) none)

end Dissection.Filter
