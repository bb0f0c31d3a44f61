import Dissection.Text

/-!
# How alike two texts are

Two texts share their longest common run of characters, and what the parts before it
and the parts after it share in turn.  The more of all their characters they share,
the more alike they are.

## Main definitions

* `Text.sharedRun` — the longest run that two texts have in common.
* `Text.shared` — the number of characters that two texts share.
* `Text.nearest` — the names that are most like a text.
-/

namespace Dissection.Text

/-! ## The longest common run -/

/-- The length of the longest text that two texts both start with. -/
def commonFront : Text → Text → Nat
  | c :: s, d :: t => if c = d then commonFront s t + 1 else 0
  | _, _ => 0

/-- A run of characters that stands in two texts, at a position in each. -/
structure SharedRun where
  inFirst : Nat
  inSecond : Nat
  length : Nat
  deriving DecidableEq, Repr

/-- The longer of two runs, and the first one if neither is longer. -/
def SharedRun.longer (x y : SharedRun) : SharedRun := if x.length < y.length then y else x

/-- The longest run that two texts have in common.  Of equally long ones it is the
leftmost in the first text, and of those the leftmost in the second. -/
def sharedRun (s t : Text) : SharedRun :=
  (List.range s.length).foldl (fun best i =>
    (List.range t.length).foldl (fun best j =>
      best.longer ⟨i, j, commonFront (s.drop i) (t.drop j)⟩) best) ⟨0, 0, 0⟩

/-! ## Likeness -/

/-- The number of characters that two texts share: their longest common run, and what
is shared on either side of it. -/
def shared (s t : Text) : Nat :=
  match sharedRun s t with
  | ⟨i, j, length⟩ =>
    if _h : 0 < length ∧ i < s.length then
      shared (s.take i) (t.take j) + length + shared (s.drop (i + length)) (t.drop (j + length))
    else 0
termination_by s.length
decreasing_by
  all_goals
    simp only [List.length_take, List.length_drop]
    omega

/-- A name and how much it shares with the text it is compared with. -/
structure Likeness where
  name : Text
  shared : Nat
  /-- The length of the name and the text together. -/
  total : Nat

namespace Likeness

/-- The likeness of a name to a text. -/
def ofName (text name : Text) : Likeness := ⟨name, Text.shared name text, name.length + text.length⟩

/-- Whether at least six in ten characters are shared. -/
def isClose (l : Likeness) : Bool := 6 * l.total ≤ 10 * (2 * l.shared)

/-- Whether one name is at least as like a text as another; the greater name comes first
of two that are equally alike. -/
def atLeast (a b : Likeness) : Bool :=
  b.shared * a.total < a.shared * b.total ||
    (a.shared * b.total = b.shared * a.total && ¬ a.name < b.name)

end Likeness

/-- The three names that are most like a text, if they are like it at all. -/
def nearest (text : Text) (names : List Text) : List Text :=
  let close := (names.map (Likeness.ofName text)).filter (·.isClose)
  ((close.mergeSort Likeness.atLeast).take 3).map (·.name)

end Dissection.Text
