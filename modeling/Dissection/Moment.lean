import Dissection.Number.Numeral

/-!
# Moments

A moment is a date and a time of day to the microsecond, with or without its
offset from universal time.

## Main definitions

* `Moment` — a date, a time of day and perhaps an offset.
* `Moment.iso` — a moment in the notation of ISO 8601.
* `Moment.literal` — a moment as an expression that makes it.
* `Moment.read?` — the moment that a text in that notation names.
* `Moment.same` — whether two moments are the same.
-/

namespace Dissection

open Text

/-- A date and a time of day. -/
structure Moment where
  year : Nat
  month : Nat
  day : Nat
  hour : Nat := 0
  minute : Nat := 0
  second : Nat := 0
  microsecond : Nat := 0
  /-- Microseconds ahead of universal time. -/
  offset : Option Int := none
  deriving DecidableEq, Repr

namespace Moment

/-- The microseconds of a second. -/
def perSecond : Nat := 1000000

/-! ## Writing -/

/-- A number with zeros in front of it up to `width` digits. -/
def padded (width n : Nat) : Text :=
  let digits := Numeral.ofNat n
  List.replicate (width - digits.length) '0' ++ digits

/-- A part of a second, unless there is none. -/
def fraction (microsecond : Nat) : Text :=
  if microsecond = 0 then [] else '.' :: padded 6 microsecond

/-- An offset from universal time; seconds are shown where there are some. -/
def offsetText (offset : Int) : Text :=
  let size := offset.natAbs
  let seconds := size / perSecond
  (if offset < 0 then '-' else '+') :: padded 2 (seconds / 3600) ++
    ':' :: padded 2 (seconds / 60 % 60) ++
    if size % (60 * perSecond) = 0 then []
    else ':' :: padded 2 (seconds % 60) ++ fraction (size % perSecond)

/-- A moment in the notation of ISO 8601, with a character between date and time. -/
def iso (separator : Char) (m : Moment) : Text :=
  padded 4 m.year ++ '-' :: padded 2 m.month ++ '-' :: padded 2 m.day ++
    separator :: padded 2 m.hour ++ ':' :: padded 2 m.minute ++ ':' :: padded 2 m.second ++
    fraction m.microsecond ++ (m.offset.map offsetText).getD []

/-- Named amounts, those that are zero left out. -/
def amounts (parts : List (Text × Int)) : Text :=
  (", " : Text).intercalate
    ((parts.filter (·.2 ≠ 0)).map fun (name, amount) => name ++ '=' :: Numeral.ofInt amount)

/-- An offset as an expression that makes it. -/
def zoneLiteral (offset : Int) : Text :=
  if offset = 0 then "datetime.timezone.utc"
  else
    let day : Int := 86400 * perSecond
    "datetime.timezone(datetime.timedelta(" ++
      amounts [("days", offset.fdiv day), ("seconds", offset.fmod day / perSecond),
        ("microseconds", offset.fmod perSecond)] ++ "))"

/-- A moment as an expression that makes it.  Seconds and microseconds are shown
where they are needed. -/
def literal (m : Moment) : Text :=
  let shown :=
    [m.year, m.month, m.day, m.hour, m.minute] ++
      if m.microsecond ≠ 0 then [m.second, m.microsecond]
      else if m.second ≠ 0 then [m.second] else []
  let zone : Text :=
    match m.offset with
    | none => []
    | some offset => ", tzinfo=" ++ zoneLiteral offset
  "datetime.datetime(" ++ (", " : Text).intercalate (shown.map Numeral.ofNat) ++ zone ++ ")"

/-! ## Reading -/

/-- The number that exactly `width` digits at the front of a text spell. -/
def number? (width : Nat) (text : Text) : Option (Nat × Text) :=
  let digits := text.take width
  if digits.length = width then
    (digits.mapM Digit.ascii?).map fun ds => (Numeral.ofDigits ds, text.drop width)
  else none

/-- The two-digit number behind a mark; zero where the mark is missing. -/
def after? (mark : Char) (text : Text) : Option (Nat × Text) :=
  match text with
  | c :: rest => if c = mark then number? 2 rest else some (0, text)
  | [] => some (0, [])

/-- The microseconds that a part of a second amounts to, of any number of digits. -/
def fraction? (text : Text) : Option (Nat × Text) :=
  match text with
  | '.' :: rest =>
    let digits := rest.takeWhile fun c => (Digit.ascii? c).isSome
    if digits = [] then none
    else
      let six := (digits ++ List.replicate 6 '0').take 6
      (number? 6 six).map fun (n, _) => (n, rest.drop digits.length)
  | _ => some (0, text)

/-- Hours, minutes, seconds and microseconds. -/
def time? (text : Text) : Option ((Nat × Nat × Nat × Nat) × Text) := do
  let (hour, rest) ← number? 2 text
  let (minute, rest) ← after? ':' rest
  let (second, rest) ← after? ':' rest
  let (microsecond, rest) ← fraction? rest
  return ((hour, minute, second, microsecond), rest)

/-- The offset that ends a text, if there is one. -/
def offset? (text : Text) : Option (Option Int) :=
  match text with
  | [] => some none
  | ['Z'] => some (some 0)
  | c :: rest =>
    if c = '+' ∨ c = '-' then
      match time? rest with
      | some ((hour, minute, second, microsecond), []) =>
        let size : Int := (hour * 3600 + minute * 60 + second) * perSecond + microsecond
        some (some (if c = '-' then -size else size))
      | _ => none
    else none

/-- The moment that a text in the notation of ISO 8601 names. -/
def read? (text : Text) : Option Moment := do
  let (year, rest) ← number? 4 text
  let (month, rest) ← after? '-' rest
  let (day, rest) ← after? '-' rest
  match rest with
  | [] => return { year, month, day }
  | _ :: rest =>
    let ((hour, minute, second, microsecond), rest) ← time? rest
    let offset ← offset? rest
    return { year, month, day, hour, minute, second, microsecond, offset }

/-! ## Comparing -/

/-- The number of a day, counted from a fixed day. -/
def dayNumber (year month day : Nat) : Int :=
  let y : Int := if month ≤ 2 then (year : Int) - 1 else year
  let m : Int := if month ≤ 2 then (month : Int) + 9 else (month : Int) - 3
  365 * y + y / 4 - y / 100 + y / 400 + (153 * m + 2) / 5 + day

/-- The microseconds of a moment, read as universal time. -/
def instant (m : Moment) : Int :=
  (((dayNumber m.year m.month m.day * 24 + m.hour) * 60 + m.minute) * 60 + m.second) * perSecond +
    m.microsecond - m.offset.getD 0

/-- Whether two moments are the same: the same instant if both have an offset, and
the same date and time if neither has one. -/
def same (a b : Moment) : Bool := a.offset.isSome = b.offset.isSome && a.instant = b.instant

end Moment

end Dissection
