import Dissection.Placeholder

/-!
# Patterns

A pattern is written as literal text with placeholders in braces after a percent
sign.  It is compiled into the literal in front of the first placeholder and one
token for each placeholder: where its capture goes, and the literal that ends
the capture.  A placeholder reaches from its opening to the first closing brace, so
its text may hold an opening but no closing brace.

## Main definitions

* `Pattern.scan` — the leading literal of a text, and each placeholder's text with
  the literal behind it.
* `Pattern.compile` — the pattern that a text describes.
* `Pattern.written` — the text that describes a pattern.
* `Pattern.Error` — why a text describes no pattern.
-/

namespace Dissection

open Text

/-- A placeholder and the literal that ends its capture. -/
structure Token where
  placeholder : Placeholder
  delimiter : Text
  deriving DecidableEq, Repr

/-- A compiled pattern. -/
structure Pattern where
  /-- The literal in front of the first placeholder. -/
  leading : Text
  tokens : List Token
  deriving DecidableEq, Repr

namespace Pattern

/-! ## Scanning -/

/-- What opens a placeholder. -/
def opening : Text := ['%', '{']

/-- What closes a placeholder. -/
def closing : Text := ['}']

/-- A placeholder that is opened and not closed: where it is opened, and the text
from there on. -/
structure Unterminated where
  position : Nat
  rest : Text
  deriving DecidableEq, Repr

/-- The texts of the placeholders with the literals behind them, from just
behind the opening at `position`. -/
def scanFrom (position : Nat) (text : Text) : Except Unterminated (List (Text × Text)) :=
  match _hc : cut? closing text with
  | none => .error ⟨position, opening ++ text⟩
  | some (raw, after) =>
    match _ho : cut? opening after with
    | none => .ok [(raw, after)]
    | some (delimiter, next) =>
      (scanFrom (position + opening.length + raw.length + closing.length + delimiter.length)
        next).map ((raw, delimiter) :: ·)
termination_by text.length
decreasing_by
  have := length_of_cut? _hc
  have := length_of_cut? _ho
  simp [opening, closing] at *
  omega

/-- The leading literal of a text, and the texts of its placeholders with the
literals behind them. -/
def scan (text : Text) : Except Unterminated (Text × List (Text × Text)) :=
  match cut? opening text with
  | none => .ok (text, [])
  | some (leading, next) => (scanFrom leading.length next).map (leading, ·)

/-! ## Compiling -/

/-- Why a text describes no pattern. -/
inductive Error where
  | unterminated (u : Unterminated)
  | placeholder (e : Placeholder.Error)
  deriving DecidableEq, Repr

/-- What is said of an error. -/
def Error.message : Error → Text
  | .unterminated u =>
    "Unterminated field placeholder at position " ++ Numeral.ofNat u.position ++ ": " ++ u.rest
  | .placeholder e => e.message

/-- The token of a placeholder's text and the literal behind it. -/
def tokenOf (part : Text × Text) : Except Error Token :=
  match Placeholder.parse part.1 with
  | .ok placeholder => .ok ⟨placeholder, part.2⟩
  | .error e => .error (.placeholder e)

/-- The pattern that a text describes.  A placeholder without an end is found
before any other fault, and of the other faults the leftmost is reported. -/
def compile (text : Text) : Except Error Pattern :=
  match scan text with
  | .error u => .error (.unterminated u)
  | .ok (leading, parts) => (parts.mapM tokenOf).map fun tokens => ⟨leading, tokens⟩

/-! ## A pattern's text and names -/

/-- The text that describes a pattern. -/
def written (p : Pattern) : Text :=
  p.leading ++ p.tokens.flatMap fun token =>
    opening ++ token.placeholder.raw ++ closing ++ token.delimiter

/-- The fields that are put together from pieces: those that an append
placeholder of the pattern names, wherever it stands. -/
def appendNames (p : Pattern) : List Text :=
  (p.tokens.filter (·.placeholder.modifier.isAppend)).map (·.placeholder.name)

/-- The fields that the pattern names itself, each at its first placeholder. The
names of indirect fields are in the input. -/
def fieldNames (p : Pattern) : List Text :=
  let own := p.tokens.filter fun token =>
    token.placeholder.modifier.isSaved && !token.placeholder.modifier.isIndirect
  (own.map (·.placeholder.name)).foldl
    (fun names name => if name ∈ names then names else names ++ [name]) []

end Pattern

end Dissection
