import Dissection.Text

/-!
# UTF-8

A character is one byte below 0x80, or a leading byte with one to three trailing
bytes.  Overlong forms and surrogates are excluded by what the first trailing byte
may be.  Decoding stops at the first byte sequence that can be no character, and an
error names the bytes up to the one that rules it out.

## Main definitions

* `Utf8.encode` — a text as bytes.
* `Utf8.decodeFrom` — the characters of a byte sequence, and how it ends.
* `Utf8.decode` — the text of a whole byte sequence.
* `Utf8.Error` — why a byte sequence is no text.
-/

namespace Dissection.Utf8

/-- What is wrong with bytes. -/
inductive Reason where
  | invalidStart
  | invalidContinuation
  | unexpectedEnd
  deriving DecidableEq, Repr

/-- The words for what is wrong. -/
def Reason.message : Reason → Text
  | .invalidStart => "invalid start byte"
  | .invalidContinuation => "invalid continuation byte"
  | .unexpectedEnd => "unexpected end of data"

/-- Bytes that are no character: where they start, what they are and why. -/
structure Error where
  position : Nat
  bytes : List UInt8
  reason : Reason
  deriving DecidableEq, Repr

/-- A byte in two hexadecimal digits. -/
def hexByte (b : UInt8) : Text :=
  let digits := Nat.toDigits 16 b.toNat
  List.replicate (2 - digits.length) '0' ++ digits

/-- What is said of an error. -/
def Error.message (e : Error) : Text :=
  let place : Text :=
    match e.bytes with
    | [b] => "byte 0x" ++ hexByte b ++ " in position " ++ Nat.toDigits 10 e.position
    | bytes => "bytes in position " ++ Nat.toDigits 10 e.position ++ "-" ++
        Nat.toDigits 10 (e.position + bytes.length - 1)
  "'utf-8' codec can't decode " ++ place ++ ": " ++ e.reason.message

/-! ## Encoding -/

/-- A text as bytes. -/
def encode (text : Text) : List UInt8 := text.flatMap String.utf8EncodeChar

/-! ## Decoding -/

/-- What a leading byte asks for: how many trailing bytes, and the least and the
greatest byte that the first of them may be. -/
def lead? (b : UInt8) : Option (Nat × UInt8 × UInt8) :=
  if b < 0xC2 then none
  else if b < 0xE0 then some (1, 0x80, 0xBF)
  else if b = 0xE0 then some (2, 0xA0, 0xBF)
  else if b = 0xED then some (2, 0x80, 0x9F)
  else if b < 0xF0 then some (2, 0x80, 0xBF)
  else if b = 0xF0 then some (3, 0x90, 0xBF)
  else if b < 0xF4 then some (3, 0x80, 0xBF)
  else if b = 0xF4 then some (3, 0x80, 0x8F)
  else none

/-- The trailing bytes at the front of a sequence, at most `owed` of them, the first one
between `low` and `high`. -/
def trailing (low high : UInt8) : (owed : Nat) → List UInt8 → List UInt8
  | 0, _ => []
  | _ + 1, [] => []
  | owed + 1, b :: rest =>
    if low ≤ b ∧ b ≤ high then b :: trailing 0x80 0xBF owed rest else []

/-- The character of a leading byte and its trailing bytes. -/
def characterOf (b : UInt8) (tail : List UInt8) : Char :=
  let lead := b.toNat % Nat.pow 2 (6 - tail.length)
  Char.ofNat (tail.foldl (fun code t => code * 64 + t.toNat % 64) lead)

/-- Whether bytes are two of the three that would stand for a surrogate.  They start no
character, which is only held against them when it is known what follows. -/
def isCutSurrogate : List UInt8 → Bool
  | [a, b] => a = 0xED && 0xA0 ≤ b && b ≤ 0xBF
  | _ => false

/-- How a byte sequence ends. -/
inductive Ending where
  /-- With a whole character, or empty. -/
  | complete
  /-- Within a character or surrogate that these bytes start. -/
  | partway (bytes : List UInt8)
  /-- In bytes that are no character. -/
  | invalid (e : Error)
  deriving DecidableEq, Repr

/-- The characters of a byte sequence that starts at `position`, and how it ends. -/
def decodeFrom (position : Nat) (bytes : List UInt8) : Text × Ending :=
  match bytes with
  | [] => ([], .complete)
  | b :: rest =>
    if b < 0x80 then
      let (text, ending) := decodeFrom (position + 1) rest
      (Char.ofNat b.toNat :: text, ending)
    else
      match lead? b with
      | none => ([], .invalid ⟨position, [b], .invalidStart⟩)
      | some (owed, low, high) =>
        let tail := trailing low high owed rest
        if tail.length = owed then
          let (text, ending) := decodeFrom (position + 1 + owed) (rest.drop owed)
          (characterOf b tail :: text, ending)
        else if tail.length = rest.length then ([], .partway (b :: tail))
        else if isCutSurrogate bytes then ([], .partway bytes)
        else ([], .invalid ⟨position, b :: tail, .invalidContinuation⟩)
termination_by bytes.length
decreasing_by
  · simp
  · simp only [List.length_drop, List.length_cons]
    omega

/-- What is wrong with bytes that start a character or surrogate and nothing follows. -/
def Error.ofRest (position : Nat) (bytes : List UInt8) : Error :=
  if isCutSurrogate bytes then ⟨position, bytes.take 1, .invalidContinuation⟩
  else ⟨position, bytes, .unexpectedEnd⟩

/-- The text of a whole byte sequence. -/
def decode (bytes : List UInt8) : Except Error Text :=
  match decodeFrom 0 bytes with
  | (text, .complete) => .ok text
  | (_, .partway rest) => .error (.ofRest (bytes.length - rest.length) rest)
  | (_, .invalid e) => .error e

end Dissection.Utf8
