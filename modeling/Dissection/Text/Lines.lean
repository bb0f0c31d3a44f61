import Dissection.Text.Utf8

/-!
# Lines

A line ends in a line feed, in a carriage return, or in both in that order; the
last line may end without any of them.  Some streams are read so that only a line feed
ends a line, and then a line may have returns at its end, which are cut off.

A stream of bytes is decoded a chunk at a time.  A chunk that is not UTF-8 yields
nothing, and the lines that were complete before it are still read.

## Main definitions

* `Lines.unify` — a text with every line end as a line feed.
* `Lines.ofText` — the lines of a text, without their ends.
* `Lines.Ends` — what ends the lines of a stream.
* `Lines.ofBytes` — the lines of a stream, and the error that ends it.
-/

namespace Dissection.Lines

/-! ## Lines of a text -/

/-- A text with every line end as a line feed. -/
def unify : Text → Text
  | [] => []
  | '\r' :: '\n' :: rest => '\n' :: unify rest
  | '\r' :: rest => '\n' :: unify rest
  | c :: rest => c :: unify rest

/-- The lines that end in a line feed, without it, and what follows the last one. -/
def split : Text → List Text × Text
  | [] => ([], [])
  | c :: rest =>
    let (lines, last) := split rest
    if c = '\n' then ([] :: lines, last)
    else
      match lines with
      | [] => ([], c :: last)
      | line :: lines => ((c :: line) :: lines, last)

/-- Lines and what follows the last one, which counts as a line unless it is empty. -/
def closed : List Text × Text → List Text
  | (lines, []) => lines
  | (lines, last) => lines ++ [last]

/-- The lines of a text.  A last line without an end counts unless it is empty. -/
def ofText (text : Text) : List Text := closed (split (unify text))

/-! ## What ends a line -/

/-- What ends the lines of a stream. -/
inductive Ends where
  /-- A line feed, a carriage return, or both in that order. -/
  | any
  /-- A line feed and nothing else. -/
  | lineFeed
  deriving DecidableEq, Repr

/-- A line without the returns at its end. -/
def withoutReturns (line : Text) : Text := (line.reverse.dropWhile (· = '\r')).reverse

/-- The lines of a text, as their ends are recognised. -/
def Ends.lines : Ends → Text → List Text
  | .any, text => ofText text
  | .lineFeed, text => (closed (split text)).map withoutReturns

/-- A text without a carriage return at its end, which a line feed might still
follow. -/
def withoutHeldReturn (text : Text) : Text :=
  if text.getLast? = some '\r' then text.dropLast else text

/-- The lines that have ended in a text which goes on. -/
def Ends.ended : Ends → Text → List Text
  | .any, text => (split (unify (withoutHeldReturn text))).1
  | .lineFeed, text => (split text).1.map withoutReturns

/-! ## Lines of a stream -/

/-- The number of bytes that are decoded at a time. -/
def chunkSize : Nat := 8192

/-- The text of a stream up to the chunk that is not UTF-8, and the error there.  The
`held` bytes start a character that the next chunk goes on with. -/
def decodeChunks (held bytes : List UInt8) : Text × Option Utf8.Error :=
  if bytes = [] then
    if held = [] then ([], none) else ([], some (.ofRest 0 held))
  else
    match Utf8.decodeFrom 0 (held ++ bytes.take chunkSize) with
    | (_, .invalid e) => ([], some e)
    | (text, .complete) =>
      let (more, error) := decodeChunks [] (bytes.drop chunkSize)
      (text ++ more, error)
    | (text, .partway held) =>
      let (more, error) := decodeChunks held (bytes.drop chunkSize)
      (text ++ more, error)
termination_by bytes.length
decreasing_by
  all_goals
    have := List.length_pos_iff.2 ‹¬bytes = []›
    simp only [List.length_drop, chunkSize]
    omega

/-- The lines of a stream of bytes, and the error that ends it.  Before an error only
the lines that have ended are read. -/
def ofBytes (ends : Ends) (bytes : List UInt8) : List Text × Option Utf8.Error :=
  match decodeChunks [] bytes with
  | (text, none) => (ends.lines text, none)
  | (text, some e) => (ends.ended text, some e)

end Dissection.Lines
