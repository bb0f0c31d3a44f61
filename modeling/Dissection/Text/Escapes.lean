import Dissection.Text

/-!
# Control sequences for terminals

A control sequence is an escape character and an opening bracket, any parameters, any
intermediate characters, and a final one, all of ASCII and each of a range of its own.
It colours what a terminal shows or moves about in it, and means nothing anywhere else.

## Main definitions

* `Text.afterSequence?` — what follows a control sequence at the front of a text.
* `Text.withoutSequences` — a text without its control sequences.
-/

namespace Dissection.Text

/-- The character that starts a control sequence. -/
def escape : Char := '\x1b'

/-- Whether a character is a parameter: a digit or one of six marks. -/
def isParameter (c : Char) : Bool := '0' ≤ c && c ≤ '?'

/-- Whether a character may stand between the parameters and the final character. -/
def isIntermediate (c : Char) : Bool := ' ' ≤ c && c ≤ '/'

/-- Whether a character ends a control sequence. -/
def isFinal (c : Char) : Bool := '@' ≤ c && c ≤ '~'

/-- What follows a control sequence at the front of a text, if one stands there. -/
def afterSequence? (text : Text) : Option Text :=
  match strip? [escape, '['] text with
  | none => none
  | some rest =>
    match (rest.dropWhile isParameter).dropWhile isIntermediate with
    | c :: rest => if isFinal c then some rest else none
    | [] => none

theorem length_of_afterSequence? {text rest : Text} (h : afterSequence? text = some rest) :
    rest.length < text.length := by
  rw [afterSequence?] at h
  split at h
  · cases h
  · next after ha =>
    have hs := length_of_strip? ha
    have hp := (List.dropWhile_suffix isParameter (l := after)).length_le
    have hi := (List.dropWhile_suffix isIntermediate (l := after.dropWhile isParameter)).length_le
    split at h
    · next c more hm =>
      split at h
      · cases h
        rw [hm, List.length_cons] at hi
        omega
      · cases h
    · cases h

/-- A text without its control sequences. -/
def withoutSequences (text : Text) : Text :=
  match _h : afterSequence? text with
  | some rest => withoutSequences rest
  | none =>
    match text with
    | [] => []
    | c :: rest => c :: withoutSequences rest
termination_by text.length
decreasing_by
  · exact length_of_afterSequence? _h
  · simp

end Dissection.Text
