import Dissection.Record

/-!
# Values that are held

A list can be held by several at a time, at any depth of what they hold, and what is appended to
it through one of them is seen by all.  So a value that is held has a label on each of its lists,
and lists with one label are one list.  What was appended to lists since they were labelled is
kept apart, under their labels, and joins in when a value is looked at.

A value whose lists are all new has labels of its own, of one origin.  A copy has such labels too:
lists that are one list are copied to one list.

## Main definitions

* `Label` — what tells lists apart.
* `Held` — a value with labels on its lists.
* `Held.seen` — the value, with what was appended to its lists.
* `Held.labels` — the labels of its lists.
* `Held.fresh` — a value whose lists are all new.
* `Held.freshFields` — fields whose values share no list.
* `Held.copied` — a copy whose lists are new.
-/

namespace Dissection

/-- What tells lists apart: the origin that they have in common with the lists that came with
them, and where they were among these. -/
structure Label where
  origin : Nat
  path : List Nat
  deriving DecidableEq, Repr

/-- An origin that no label of a list has, nor any later one. -/
def Label.bound (labels : List Label) : Nat :=
  labels.foldr (fun label least => max (label.origin + 1) least) 0

/-- A value as it is held. -/
inductive Held where
  /-- A value without lists, or with lists that nobody else holds. -/
  | plain (v : Value)
  | list (label : Label) (items : List Held)
  | tuple (items : List Held)
  | set (items : List Held)
  | member (value : Held)
  | map (entries : List (Value × Held))

namespace Held

instance : Inhabited Held := ⟨.plain .null⟩

/-- The label of a list. -/
def label? : Held → Option Label
  | .list label _ => some label
  | _ => none

/-! ## Looking at what is held -/

variable (appended : Label → List Value)

mutual

/-- What is seen of a value that is held, after values were appended to lists. -/
def seen : Held → Value
  | .plain v => v
  | .list label items => .list (seenItems items ++ appended label)
  | .tuple items => .tuple (seenItems items)
  | .set items => .set (seenItems items)
  | .member value => .member (seen value)
  | .map entries => .map (seenEntries entries)

/-- What is seen of items. -/
def seenItems : List Held → List Value
  | [] => []
  | item :: rest => seen item :: seenItems rest

/-- What is seen of entries. -/
def seenEntries : List (Value × Held) → List (Value × Value)
  | [] => []
  | (key, value) :: rest => (key, seen value) :: seenEntries rest

end

mutual

/-- The labels of all lists in a value. -/
def labels : Held → List Label
  | .plain _ => []
  | .list label items => label :: labelsOfItems items
  | .tuple items => labelsOfItems items
  | .set items => labelsOfItems items
  | .member value => labels value
  | .map entries => labelsOfEntries entries

/-- The labels of all lists in items. -/
def labelsOfItems : List Held → List Label
  | [] => []
  | item :: rest => labels item ++ labelsOfItems rest

/-- The labels of all lists in entries. -/
def labelsOfEntries : List (Value × Held) → List Label
  | [] => []
  | (_, value) :: rest => labels value ++ labelsOfEntries rest

end

/-- An origin that no label in a value has, nor any later one. -/
def bound (held : Held) : Nat := Label.bound held.labels

/-! ## New lists -/

section

variable (origin : Nat)

mutual

/-- A value whose lists are all new and have one origin. -/
def fresh (path : List Nat) : Value → Held
  | .list items => .list ⟨origin, path⟩ (freshItems path 0 items)
  | .tuple items => .tuple (freshItems path 0 items)
  | .set items => .set (freshItems path 0 items)
  | .member value => .member (fresh (0 :: path) value)
  | .map entries => .map (freshEntries path 0 entries)
  | v => .plain v

/-- Items whose lists are all new. -/
def freshItems (path : List Nat) (index : Nat) : List Value → List Held
  | [] => []
  | v :: rest => fresh (index :: path) v :: freshItems path (index + 1) rest

/-- Entries whose lists are all new. -/
def freshEntries (path : List Nat) (index : Nat) : List (Value × Value) → List (Value × Held)
  | [] => []
  | (key, v) :: rest => (key, fresh (index :: path) v) :: freshEntries path (index + 1) rest

end

mutual

/-- A copy of what is seen, with new lists in the place of those that are there. -/
def copied : Held → Held
  | .plain v => .plain v
  | .list label items =>
    .list ⟨origin, label.origin :: label.path⟩ (copiedItems items ++ (appended label).map .plain)
  | .tuple items => .tuple (copiedItems items)
  | .set items => .set (copiedItems items)
  | .member value => .member (copied value)
  | .map entries => .map (copiedEntries entries)

/-- Copies of items. -/
def copiedItems : List Held → List Held
  | [] => []
  | item :: rest => copied item :: copiedItems rest

/-- Copies of entries. -/
def copiedEntries : List (Value × Held) → List (Value × Held)
  | [] => []
  | (key, value) :: rest => (key, copied value) :: copiedEntries rest

end

end

/-- Fields whose values share no list, each of an origin of its own. -/
def freshFields (origin : Nat) : List (Value × Value) → List (Value × Held)
  | [] => []
  | (name, v) :: rest => (name, fresh origin [] v) :: freshFields (origin + 1) rest

theorem names_freshFields (origin : Nat) (entries : List (Value × Value)) :
    (freshFields origin entries).map Prod.fst = entries.map Prod.fst := by
  induction entries generalizing origin with
  | nil => rfl
  | cons entry rest ih => exact congrArg (entry.1 :: ·) (ih (origin + 1))

end Held

end Dissection
