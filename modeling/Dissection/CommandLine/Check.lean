import Dissection.CommandLine.Shell
import Dissection.Filter

/-!
# Checking patterns

Each pattern is compiled, and its tokens are listed or given as JSON.  A pattern that
cannot be compiled is reported and the next one is checked.

## Main definitions

* `Check.listing`, `Check.description` — a pattern's tokens for people, and as a value.
* `Check.checkAll` — checks patterns one after another.
* `Check.session` — the session that arguments ask for.
-/

namespace Dissection.CommandLine.Check

/-! ## A pattern's tokens -/

/-- The line about a token. -/
def tokenLine (position : Nat) (token : Token) : Text :=
  let placeholder := token.placeholder
  let name := if placeholder.name = [] then ['-'] else placeholder.name
  let slot := match placeholder.modifier.slot? with
    | none => []
    | some slot => '/' :: Numeral.ofNat slot
  "  " ++ (Numeral.ofNat position).padLeft 3 ++ "  " ++ placeholder.modifier.label.padRight 15 ++
    " " ++ name ++ slot ++ "  delimiter=" ++ token.delimiter.quoted

/-- The lines about a pattern that is written as `text`. -/
def listing (text : Text) (p : Pattern) : List Text :=
  ("valid: " ++ text) ::
    (if p.leading = [] then [] else ["  prefix: " ++ p.leading.quoted]) ++
    p.tokens.mapIdx tokenLine

/-- A token and its position as a value. -/
def tokenValue (position : Nat) (token : Token) : Value :=
  let placeholder := token.placeholder
  .map [
    (.text "position", .int position),
    (.text "raw", .text placeholder.raw),
    (.text "name", .text placeholder.name),
    (.text "modifier", .text placeholder.modifier.label),
    (.text "order", placeholder.modifier.slot?.elim .null fun slot => .int slot),
    (.text "delimiter", .text token.delimiter)]

/-- A pattern that is written as `text`, as a value. -/
def description (text : Text) (p : Pattern) : Value :=
  .map [
    (.text "pattern", .text text),
    (.text "prefix", .text p.leading),
    (.text "tokens", .list (p.tokens.mapIdx tokenValue))]

/-! ## Checking -/

/-- What is written about a pattern that can be compiled. -/
def approval (asJson : Bool) (text : Text) (p : Pattern) : Except Json.Unwritable (List Output) :=
  if asJson then
    (Json.write Json.strict (description text p)).map fun line => [.line .output line]
  else .ok ((listing text p).map (.line .output))

/-- What is written about a pattern that cannot be compiled. -/
def rejection (text : Text) (e : Pattern.Error) : List Output :=
  [.line .errors ("invalid: " ++ text), .line .errors ("  " ++ e.message)]

/-- Checks patterns one after another.  An error that has no report breaks the session
off. -/
def checkAll (asJson : Bool) : List Text → Session
  | [] => {}
  | text :: rest =>
    match Pattern.compile text with
    | .ok p =>
      match approval asJson text p with
      | .ok lines => (checkAll asJson rest).after lines
      | .error u => .broken (.record (.unwritable u))
    | .error e =>
      if (e.report? none .null).isNone then .broken (.pattern e)
      else
        let later := checkAll asJson rest
        { later.after (rejection text e) with ending := later.ending.failing }

/-- The session that arguments ask for. -/
def session (shell : Shell) (program : Text) (arguments : List Text) : Session :=
  match shell.check program arguments with
  | .ended s => s
  | .given request => checkAll request.asJson request.patterns

end Dissection.CommandLine.Check
