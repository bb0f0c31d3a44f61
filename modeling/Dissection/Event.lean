import Dissection.Held

/-!
# Events

An event starts out from a record that its caller keeps, and has fields of its own that at first
hold the very values of that record.  Setting a field makes it hold the very value that is handed
over, which may be new, or one that the caller, a snapshot or another field holds as well, or a part
of such a value.  Removing a field leaves the value to whoever else holds it.

A tag is appended to the list that the event holds for its tags, and is seen by all who hold that
list.  A tag is a value that nobody else holds.  A snapshot is a copy of all fields, whose lists
are new.

## Main definitions

* `Holdings` — fields with the values that they hold.
* `Handed` — what is handed to an event.
* `Event` — an event, the record that its caller keeps, and snapshots.
* `Event.ofHoldings`, `Event.ofRecord` — the event that starts out from fields.
* `Event.set`, `Event.remove`, `Event.appendTag`, `Event.takeSnapshot` — what changes them.
-/

namespace Dissection

/-- Fields with the values that they hold. -/
abbrev Holdings := Table Value Held

/-- The fields of a record, whose values share no list. -/
def Record.held (r : Record) : Holdings where
  entries := Held.freshFields 0 r.entries
  distinct := Held.names_freshFields 0 r.entries ▸ r.distinct

/-- An origin that no label in fields has, nor any later one. -/
def Holdings.bound (fields : Holdings) : Nat :=
  Label.bound (Held.labelsOfEntries fields.entries)

/-- What is handed to an event: a value that nobody holds yet, or the very value that is held. -/
inductive Handed where
  | new (v : Value)
  | held (held : Held)

/-- An event and what its caller keeps. -/
structure Event where
  /-- The fields of the event. -/
  own : Holdings
  /-- The record that the event started out from. -/
  kept : Holdings
  /-- The snapshots that were taken, in order. -/
  copies : List Holdings := []
  /-- What was appended to lists, in order, each under the label of its list. -/
  appended : List (Label × Value) := []
  /-- The origin of the next labels that are given. -/
  next : Nat
  deriving Inhabited

namespace Event

/-- The event that starts out from fields, and holds the very values that they hold. -/
def ofHoldings (fields : Holdings) : Event where
  own := fields
  kept := fields
  next := fields.bound

/-- The event that starts out from a record whose values share no list. -/
def ofRecord (r : Record) : Event := ofHoldings r.held

/-! ## Reading -/

/-- What was appended to a list. -/
def grown (e : Event) (label : Label) : List Value :=
  (e.appended.filter (·.1 = label)).map Prod.snd

/-- The record that is seen of fields. -/
def shown (e : Event) (fields : Holdings) : Record := fields.map (Held.seen e.grown)

/-- The fields of the event. -/
def fields (e : Event) : Record := e.shown e.own

/-- The record that the event started out from, as its caller sees it. -/
def given (e : Event) : Record := e.shown e.kept

/-- The snapshots, as their holders see them. -/
def snapshots (e : Event) : List Record := e.copies.map e.shown

/-- The very value that a field holds. -/
def held? (e : Event) (name : Value) : Option Held := e.own.get? name

/-- The value of a field, null where there is none. -/
def get (e : Event) (name : Value) : Value :=
  ((e.held? name).map (Held.seen e.grown)).getD .null

/-- Whether a field is present. -/
def includes (e : Event) (name : Value) : Bool := e.own.contains name

/-- The tags, or what is held in their place. -/
def tags (e : Event) : Value := e.get (.text Record.tagsField)

/-- The names of the fields, in order. -/
def names (e : Event) : List Value := e.own.keys

/-- The number of fields. -/
def size (e : Event) : Nat := e.own.size

/-! ## Writing -/

/-- The event with what is handed to it as it is held.  The lists of a new value get labels. -/
def receive (e : Event) : Handed → Event × Held
  | .new v => ({ e with next := e.next + 1 }, .fresh e.next [] v)
  | .held held => ({ e with next := max e.next held.bound }, held)

/-- Sets a field to the very value that is handed over. -/
def set (e : Event) (name : Value) (v : Handed) : Event :=
  let (e, held) := e.receive v
  { e with own := e.own.put name held }

/-- Removes a field. -/
def remove (e : Event) (name : Value) : Event := { e with own := e.own.erase name }

/-- Appends a value to a list, for all who hold the list. -/
def append (e : Event) (label : Label) (v : Value) : Event :=
  { e with appended := e.appended ++ [(label, v)] }

/-- Appends a tag to the list of tags, or to a new one.  A list that nobody else holds gives way to
a new one. -/
def appendTag (e : Event) (tag : Value) : Except Value.Misfit Event :=
  match e.held? (.text Record.tagsField) with
  | none => .ok (e.set (.text Record.tagsField) (.new (.list [tag])))
  | some (.list label _) => .ok (e.append label tag)
  | some (.plain (.list tags)) =>
    .ok (e.set (.text Record.tagsField) (.new (.list (tags ++ [tag]))))
  | some held => .error (.lacks (held.seen e.grown).fullKind .append)

/-- Copies the fields, with new lists in the place of those that they hold. -/
def takeSnapshot (e : Event) : Event :=
  { e with
    copies := e.copies ++ [e.own.map (Held.copied e.grown e.next)]
    next := e.next + 1 }

/-! ## Showing -/

/-- Whether two events hold equal values under the same names. -/
def alike (e f : Event) : Bool := (Record.toValue e.fields).alike (Record.toValue f.fields)

/-- An event as an expression that makes it, if its fields can be shown. -/
def shownLiteral (e : Event) : Except Value.Misfit Text := do
  return "Event(" ++ (← (Record.toValue e.fields).shown) ++ ")"

end Event

end Dissection
