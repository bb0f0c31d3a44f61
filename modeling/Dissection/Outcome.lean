import Dissection.Extraction
import Dissection.Pattern

/-!
# Dissecting a text

A text is split at the literals of a pattern, from left to right and without
going back.  Each literal is sought where the one before it ended, the leftmost
occurrence is taken, and repeats of the literal right behind it are skipped.
What stands before a token's literal is the token's capture; the last token takes
the rest of the text if it has no literal, and any other token without one
captures nothing.

The first literal that is not found ends the split, and the captures made until
then are kept.

## Main definitions

* `Pattern.afterLeading?` — the text behind the pattern's leading literal.
* `Split` — the captures of the tokens, and the literal that was not found.
* `Pattern.split?` — the split of a text behind the leading literal.
* `Pattern.extract` — where the captures of a pattern's tokens go.
* `Pattern.dissect` — the outcome of dissecting a text.
* `Pattern.extractWith`, `Pattern.dissectWith` — the same with any choice of the fields that are
  put together from pieces.
-/

namespace Dissection

open Text

/-! ## Splitting -/

/-- The captures made, one for each token from the first, and the literal that
was not found. -/
structure Split where
  captures : List Text
  missing : Option Text
  deriving DecidableEq, Repr

namespace Split

/-- A capture in front of those of the other tokens. -/
def cons (capture : Text) (s : Split) : Split := { s with captures := capture :: s.captures }

/-- Splits a text at the literals of tokens. -/
def ofTokens : List Token → Text → Split
  | [], _ => ⟨[], none⟩
  | token :: tokens, text =>
    if token.delimiter = [] then
      if tokens = [] then ⟨[text], none⟩ else cons [] (ofTokens tokens text)
    else
      match cut? token.delimiter text with
      | none => ⟨[], some token.delimiter⟩
      | some (capture, after) => cons capture (ofTokens tokens (dropRepeats token.delimiter after))

end Split

/-! ## Outcomes -/

/-- What became of a text. -/
inductive Outcome where
  /-- Every literal was found.  The orphans are the tags under which a value but no
  name was captured. -/
  | matched (values : Table Text Text) (orphans : List Text)
  /-- A literal was not found: the leading one, or that of the token at the given
  position. -/
  | patternNotFound (values : Table Text Text) (token : Option Nat) (delimiter : Text)
  /-- There was no text to dissect. -/
  | keyNotFound
  deriving DecidableEq, Repr

namespace Outcome

/-- Whether every literal was found. -/
def isMatched : Outcome → Bool
  | .matched .. => true
  | _ => false

/-- The captured fields. -/
def values : Outcome → Table Text Text
  | .matched values _ => values
  | .patternNotFound values .. => values
  | .keyNotFound => {}

/-- The tags under which a value but no name was captured. -/
def orphans : Outcome → List Text
  | .matched _ orphans => orphans
  | _ => []

/-- The position of the token whose literal was not found. -/
def failedToken : Outcome → Option Nat
  | .patternNotFound _ token _ => token
  | _ => none

/-- The literal that was not found. -/
def failedDelimiter : Outcome → Option Text
  | .patternNotFound _ _ delimiter => some delimiter
  | _ => none

end Outcome

/-! ## Dissecting -/

namespace Pattern

/-- The text behind the pattern's leading literal and its repeats. -/
def afterLeading? (p : Pattern) (text : Text) : Option Text :=
  if p.leading = [] then some text
  else (cut? p.leading text).map fun (_, after) => dropRepeats p.leading after

/-- The split of a text behind the leading literal, if that is found. -/
def split? (p : Pattern) (text : Text) : Option Split :=
  (p.afterLeading? text).map (Split.ofTokens p.tokens)

/-- Writes a capture where its placeholder says.  A field that is put together
from pieces anywhere in the pattern takes every capture as a piece. -/
def assign (appendNames : List Text) (e : Extraction) (target : Placeholder) (capture : Text) :
    Extraction :=
  match target.modifier with
  | .skip => e
  | .normal =>
    if target.name ∈ appendNames then e.append target.name capture none
    else e.set target.name capture
  | .append => e.append target.name capture none
  | .appendAt slot => e.append target.name capture (some slot)
  | .key => e.setKey target.name capture
  | .value => e.setValue target.name capture

/-- What the captures of the pattern's first tokens yield where these fields are put together
from pieces. -/
def extractWith (appendNames : List Text) (p : Pattern) (captures : List Text) : Extraction :=
  (p.tokens.zip captures).foldl
    (fun e (token, capture) => assign appendNames e token.placeholder capture) .empty

/-- What the captures of the pattern's first tokens yield.  The fields that are put together are
those that its append placeholders name. -/
def extract (p : Pattern) (captures : List Text) : Extraction :=
  p.extractWith p.appendNames captures

/-- Dissects a text where these fields are put together from pieces. -/
def dissectWith (appendNames : List Text) (p : Pattern) (text : Text) : Outcome :=
  match p.split? text with
  | none => .patternNotFound {} none p.leading
  | some split =>
    let e := p.extractWith appendNames split.captures
    match split.missing with
    | none => .matched e.finalize e.unpaired.keys
    | some delimiter => .patternNotFound e.finalize (some split.captures.length) delimiter

/-- Dissects a text. -/
def dissect (p : Pattern) (text : Text) : Outcome := p.dissectWith p.appendNames text

/-- What becomes of a text, by what stands behind the leading literal. -/
theorem dissect_eq (p : Pattern) (text : Text) :
    p.dissect text =
      match p.afterLeading? text with
      | none => .patternNotFound {} none p.leading
      | some rest =>
        let split := Split.ofTokens p.tokens rest
        let e := p.extract split.captures
        match split.missing with
        | none => .matched e.finalize e.unpaired.keys
        | some delimiter =>
          .patternNotFound e.finalize (some split.captures.length) delimiter := by
  rw [dissect, dissectWith, split?]
  cases p.afterLeading? text <;> rfl

end Pattern

end Dissection
