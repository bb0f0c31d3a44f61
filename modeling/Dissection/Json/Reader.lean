import Dissection.Number.Decimal
import Dissection.Value

/-!
# Reading JSON

A text is read as one JSON value with white space around it.  The infinities and NaN
are read by their names.  Under a key that an object repeats the last value counts,
in the place of the first.  An error says what was expected and where, counting
characters, and lines that end in a line feed.

A reader takes the text that is left and returns it without what it has read, so
a place in the text is known by how much is left from there on.

An escape may stand for one half of a surrogate pair without the other.  No character is
such a half, so it is in no text, and a value that holds one is not among the values
here.  The reader goes on with a replacement character, so that it finds whatever else is
wrong; who goes on with what it has read asks `Json.holdsHalf` first.

## Main definitions

* `Json.read` — the value that a text spells.
* `Json.SyntaxError` — why a text spells none.
* `Json.holdsHalf` — whether a half of a surrogate pair is escaped without the other.
-/

namespace Dissection.Json

/-! ## Errors -/

/-- What is wrong at a place. -/
inductive Reason where
  | byteOrderMark
  | expectingValue
  | expectingName
  | expectingColon
  | expectingComma
  | extraData
  | unterminatedString
  | controlCharacter
  | badEscape
  | badUnicodeEscape
  deriving DecidableEq, Repr

/-- The words for what is wrong. -/
def Reason.message : Reason → Text
  | .byteOrderMark => "Unexpected UTF-8 BOM (decode using utf-8-sig)"
  | .expectingValue => "Expecting value"
  | .expectingName => "Expecting property name enclosed in double quotes"
  | .expectingColon => "Expecting ':' delimiter"
  | .expectingComma => "Expecting ',' delimiter"
  | .extraData => "Extra data"
  | .unterminatedString => "Unterminated string starting at"
  | .controlCharacter => "Invalid control character at"
  | .badEscape => "Invalid \\escape"
  | .badUnicodeEscape => "Invalid \\uXXXX escape"

/-- What is wrong in a text, and where. -/
structure SyntaxError where
  reason : Reason
  line : Nat
  column : Nat
  position : Nat
  deriving DecidableEq, Repr

/-- The error at a position of a text. -/
def SyntaxError.located (text : Text) (reason : Reason) (position : Nat) : SyntaxError :=
  let before := text.take position
  { reason, position
    line := before.count '\n' + 1
    column := (before.reverse.takeWhile (· ≠ '\n')).length + 1 }

/-- What is said of an error. -/
def SyntaxError.message (e : SyntaxError) : Text :=
  e.reason.message ++ ": line " ++ Numeral.ofNat e.line ++ " column " ++ Numeral.ofNat e.column ++
    " (char " ++ Numeral.ofNat e.position ++ ")"

/-- What stops a reader. -/
inductive Fault where
  /-- The text is wrong where this many characters are left. -/
  | wrong (reason : Reason) (left : Nat)
  /-- An integer has more digits than are read. -/
  | numeralTooLong (digits : Nat)
  deriving DecidableEq, Repr

/-- The reader's error where `text` is left. -/
def wrong {α : Type} (reason : Reason) (text : Text) : Except Fault (α × Text) :=
  .error (.wrong reason text.length)

/-! ## White space and strings -/

/-- Whether a character is white space. -/
def isSpace (c : Char) : Bool := c = ' ' || c = '\t' || c = '\n' || c = '\r'

/-- The text behind white space. -/
def skipSpace (text : Text) : Text := text.dropWhile isSpace

/-- The value of a hexadecimal digit. -/
def hexValue? (c : Char) : Option Nat :=
  if '0' ≤ c ∧ c ≤ '9' then some (c.toNat - '0'.toNat)
  else if 'a' ≤ c ∧ c ≤ 'f' then some (c.toNat - 'a'.toNat + 10)
  else if 'A' ≤ c ∧ c ≤ 'F' then some (c.toNat - 'A'.toNat + 10)
  else none

/-- The code point that four hexadecimal digits spell. -/
def codePoint? (a b c d : Char) : Option Nat := do
  let a ← hexValue? a
  let b ← hexValue? b
  let c ← hexValue? c
  let d ← hexValue? d
  return ((a * 16 + b) * 16 + c) * 16 + d

/-- The number that four hexadecimal digits spell.  More text must follow them. -/
def fourDigits? : Text → Option (Nat × Text)
  | a :: b :: c :: d :: e :: rest => (codePoint? a b c d).map (·, e :: rest)
  | _ => none

/-- The character of a code point.  A half of a surrogate pair has none and is replaced. -/
def characterOf (code : Nat) : Char :=
  if 0xD800 ≤ code ∧ code < 0xE000 then '\uFFFD' else Char.ofNat code

/-- The second half of a surrogate pair, where one is escaped at the front of a
text; `none` where what stands there is to be read on its own. -/
def lowHalf? (text : Text) : Except Fault (Option (Nat × Text)) :=
  match text with
  | '\\' :: 'u' :: rest =>
    if rest.length < 5 then .ok none
    else
      match fourDigits? rest with
      | none => .error (.wrong .badUnicodeEscape (rest.length + 1))
      | some (low, rest) => .ok (if 0xDC00 ≤ low ∧ low < 0xE000 then some (low, rest) else none)
  | _ => .ok none

/-- The character that an escape stands for, from what follows its backslash. -/
def escaped (text : Text) : Except Fault (Char × Text) :=
  match text with
  | [] => wrong .badEscape text
  | c :: rest =>
    if c = 'u' then
      match fourDigits? rest with
      | none => wrong .badUnicodeEscape text
      | some (high, rest) =>
        if 0xD800 ≤ high ∧ high < 0xDC00 then do
          match ← lowHalf? rest with
          | some (low, rest) =>
            return (characterOf (0x10000 + (high - 0xD800) * 0x400 + (low - 0xDC00)), rest)
          | none => return (characterOf high, rest)
        else .ok (characterOf high, rest)
    else if c = '\x22' ∨ c = '\\' ∨ c = '/' then .ok (c, rest)
    else if c = 'b' then .ok ('\x08', rest)
    else if c = 'f' then .ok ('\x0c', rest)
    else if c = 'n' then .ok ('\n', rest)
    else if c = 'r' then .ok ('\r', rest)
    else if c = 't' then .ok ('\t', rest)
    else .error (.wrong .badEscape (text.length + 1))

/-- The rest of a string.  The string is opened where `opened` characters are left,
and every character that it holds or every escape takes one unit of `fuel`. -/
def stringFrom (opened : Nat) : (fuel : Nat) → Text → Except Fault (Text × Text)
  | 0, _ => .error (.wrong .unterminatedString opened)
  | _ + 1, [] => .error (.wrong .unterminatedString opened)
  | fuel + 1, c :: rest =>
    if c = '\x22' then .ok ([], rest)
    else if c = '\\' then
      if rest = [] then .error (.wrong .unterminatedString opened)
      else do
        let (character, rest) ← escaped rest
        let (characters, rest) ← stringFrom opened fuel rest
        return (character :: characters, rest)
    else if c.toNat < 0x20 then wrong .controlCharacter (c :: rest)
    else do
      let (characters, rest) ← stringFrom opened fuel rest
      return (c :: characters, rest)

/-- The string whose quotation mark has just been read. -/
def string (rest : Text) : Except Fault (Text × Text) :=
  stringFrom (rest.length + 1) (rest.length + 1) rest

/-! ## Numbers -/

/-- The digits at the front of a text. -/
def digits (text : Text) : List Nat × Text :=
  ((text.takeWhile fun c => (Text.Digit.ascii? c).isSome).filterMap Text.Digit.ascii?,
    text.dropWhile fun c => (Text.Digit.ascii? c).isSome)

/-- The digits of the whole part: a lone zero, or digits that do not start with one. -/
def wholePart : Text → List Nat × Text
  | '0' :: rest => ([0], rest)
  | text => digits text

/-- The digits behind a point, if there are some. -/
def fractionPart (text : Text) : Option (List Nat × Text) :=
  match text with
  | '.' :: rest => match digits rest with
    | ([], _) => none
    | found => some found
  | _ => none

/-- The exponent at the front of a text, if a whole one stands there. -/
def exponentPart (text : Text) : Option (Int × Text) :=
  match text with
  | [] => none
  | e :: rest =>
    if e = 'e' ∨ e = 'E' then
      let (negative, rest) := Numeral.sign rest
      match digits rest with
      | ([], _) => none
      | (found, rest) => some (Numeral.signed negative (Numeral.ofDigits found), rest)
    else none

/-- The number at the front of a text: an integer, unless a fraction or an exponent
makes it a binary64 number. -/
def numberFrom (text : Text) : Except Fault (Value × Text) :=
  let (negative, unsigned) :=
    match text with
    | '-' :: rest => (true, rest)
    | _ => (false, text)
  match wholePart unsigned with
  | ([], _) => wrong .expectingValue text
  | (whole, rest) =>
    match fractionPart rest, exponentPart ((fractionPart rest).elim rest (·.2)) with
    | none, none =>
      if whole.length ≤ Numeral.limit then
        .ok (.int (Numeral.signed negative (Numeral.ofDigits whole)), rest)
      else .error (.numeralTooLong whole.length)
    | part, exponent =>
      let after := (part.elim rest (·.2))
      let point : Int := whole.length + exponent.elim 0 (·.1)
      .ok (.float (Binary64.ofDecimal negative (whole ++ part.elim [] (·.1)) point),
        exponent.elim after (·.2))

/-! ## Values -/

/-- The values that are spelled by a word. -/
def words : List (Text × Value) :=
  [("null", .null), ("true", .bool true), ("false", .bool false), ("NaN", .float .nan),
    ("Infinity", .float (.infinite false)), ("-Infinity", .float (.infinite true))]

/-- The word at the front of a text, and what follows it. -/
def word? (text : Text) : Option (Value × Text) :=
  words.findSome? fun (word, value) => (Text.strip? word text).map (value, ·)

mutual

/-- The value at the front of a text.  Every value, and every item of an array or
object, takes one unit of `fuel`. -/
def value : (fuel : Nat) → Text → Except Fault (Value × Text)
  | 0, text => wrong .expectingValue text
  | fuel + 1, text =>
    match text with
    | '\x22' :: rest => (string rest).map fun (t, rest) => (.text t, rest)
    | '[' :: rest =>
      match skipSpace rest with
      | ']' :: rest => .ok (.list [], rest)
      | rest => (elements fuel rest).map fun (items, rest) => (.list items, rest)
    | '{' :: rest =>
      match skipSpace rest with
      | '}' :: rest => .ok (.map [], rest)
      | rest => (members fuel rest).map fun (entries, rest) => (Value.ofEntries entries, rest)
    | _ =>
      match word? text with
      | some found => .ok found
      | none => numberFrom text

/-- The items of an array up to its bracket. -/
def elements : (fuel : Nat) → Text → Except Fault (List Value × Text)
  | 0, text => wrong .expectingValue text
  | fuel + 1, text => do
    let (item, rest) ← value fuel text
    match skipSpace rest with
    | ']' :: rest => return ([item], rest)
    | ',' :: rest =>
      let (items, rest) ← elements fuel (skipSpace rest)
      return (item :: items, rest)
    | rest => wrong .expectingComma rest

/-- The entries of an object up to its brace. -/
def members : (fuel : Nat) → Text → Except Fault (List (Value × Value) × Text)
  | 0, text => wrong .expectingName text
  | fuel + 1, text =>
    match text with
    | '\x22' :: rest => do
      let (name, rest) ← string rest
      match skipSpace rest with
      | ':' :: rest =>
        let (item, rest) ← value fuel (skipSpace rest)
        match skipSpace rest with
        | '}' :: rest => return ([(.text name, item)], rest)
        | ',' :: rest =>
          let (entries, rest) ← members fuel (skipSpace rest)
          return ((.text name, item) :: entries, rest)
        | rest => wrong .expectingComma rest
      | rest => wrong .expectingColon rest
    | _ => wrong .expectingName text

end

/-- The value that a whole text spells. -/
def document (text : Text) : Except Fault Value := do
  if text.head? = some '\uFEFF' then .error (.wrong .byteOrderMark text.length)
  let (found, rest) ← value (2 * text.length + 2) (skipSpace text)
  match skipSpace rest with
  | [] => return found
  | rest => .error (.wrong .extraData rest.length)

/-- Why a text cannot be read. -/
inductive Error where
  | syntactic (e : SyntaxError)
  | numeralTooLong (digits : Nat)
  deriving DecidableEq, Repr

/-- The value that a text spells. -/
def read (text : Text) : Except Error Value :=
  match document text with
  | .ok found => .ok found
  | .error (.wrong reason left) => .error (.syntactic (.located text reason (text.length - left)))
  | .error (.numeralTooLong digits) => .error (.numeralTooLong digits)

/-! ## Halves of surrogate pairs -/

/-- Whether a half of a surrogate pair is escaped in a text without the other, where `high` says
that a first half stands right in front of the text. -/
def holdsHalfAfter (high : Bool) : Text → Bool
  | '\\' :: 'u' :: a :: b :: c :: d :: rest =>
    match codePoint? a b c d with
    | none => high || holdsHalfAfter false rest
    | some code =>
      if 0xDC00 ≤ code ∧ code < 0xE000 then !high || holdsHalfAfter false rest
      else high || holdsHalfAfter (0xD800 ≤ code ∧ code < 0xDC00) rest
  | '\\' :: _ :: rest => high || holdsHalfAfter false rest
  | _ :: rest => high || holdsHalfAfter false rest
  | [] => high

/-- Whether a half of a surrogate pair is escaped in a JSON text without the other. -/
def holdsHalf (text : Text) : Bool := holdsHalfAfter false text

end Dissection.Json
