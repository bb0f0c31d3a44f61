import Dissection.Value.Display

/-!
# The shape of a value

A setting may hold any value, and what it can be used for depends on its kind.  A text
is also the sequence of its letters, a map also the sequence of its keys, and a sequence
of pairs can stand for a map.  What cannot be used as it is meant to be is a misfit, and
a misfit says of what kind it is and what it was meant for.

## Main definitions

* `Value.Misfit` — why a value cannot be used.
* `Value.items`, `Value.entries`, `Value.table`, `Value.wording` — a value as a sequence,
  as a map, as anything that stands for a map, and as a text that is searched.
* `Value.shown` — the text of a value, if it has one.
* `Value.key` — a value as a key, which nothing that can change is.
* `Value.counts` — whether a value counts as something.
-/

namespace Dissection.Value

/-! ## Misfits -/

/-- What is asked of a value that some kinds cannot do. -/
inductive Ability where
  | append
  | appendTag
  | entries
  | read
  | search
  | presence
  | conversions
  deriving DecidableEq, Repr

/-- The name of an ability. -/
def Ability.label : Ability → Text
  | .append => "append"
  | .appendTag => "append_tag"
  | .entries => "items"
  | .read => "get"
  | .search => "find"
  | .presence => "includes"
  | .conversions => "convert_datatype"

/-- Why a value cannot be used. -/
inductive Misfit where
  /-- Its kind lacks an ability. -/
  | lacks (kind : Text) (ability : Ability)
  /-- A value of this kind is no sequence. -/
  | notSequence (kind : Text)
  /-- Bytes are searched for a text. -/
  | searchedBytes
  /-- An item of what is to stand for a map is no sequence. -/
  | notPair (index : Nat)
  /-- An item of what is to stand for a map is no pair, having so many items. -/
  | pairLength (index length : Nat)
  /-- A value of this kind is no key. -/
  | notKey (kind : Text)
  /-- An integer in it has too many digits to be shown. -/
  | notShown
  deriving DecidableEq, Repr

/-- What is said of a misfit. -/
def Misfit.message : Misfit → Text
  | .lacks kind ability =>
    Text.quoted kind ++ " object has no attribute " ++ Text.quoted ability.label
  | .notSequence kind => Text.quoted kind ++ " object is not iterable"
  | .searchedBytes => "argument should be integer or bytes-like object, not 'str'"
  | .notPair index =>
    "cannot convert dictionary update sequence element #" ++ Numeral.ofNat index ++ " to a sequence"
  | .pairLength index length =>
    "dictionary update sequence element #" ++ Numeral.ofNat index ++ " has length " ++
      Numeral.ofNat length ++ "; 2 is required"
  | .notKey kind => "unhashable type: " ++ Text.quoted kind
  | .notShown => Numeral.notShown

/-! ## What counts -/

/-- Whether a value counts as something: null, false, zeros and whatever is empty do
not. -/
def counts : Value → Bool
  | .null => false
  | .bool b => b
  | .int n => n ≠ 0
  | .float x => !x.equalsInt 0
  | .text t => t ≠ []
  | .bytes b => b ≠ []
  | .list items | .tuple items | .set items => !items.isEmpty
  | .map entries => !entries.isEmpty
  | .moment _ | .member _ | .placeholder _ => true

/-! ## Keys -/

mutual

/-- The kind of what keeps a value from being a key: a list, a set or a map, which may
stand inside a tuple. -/
def unfitKey? : Value → Option Text
  | .list items => some (kind (.list items))
  | .set items => some (kind (.set items))
  | .map entries => some (kind (.map entries))
  | .tuple items => unfitItem? items
  | _ => none

/-- The kind of the first of several values that keeps them from being keys. -/
def unfitItem? : List Value → Option Text
  | [] => none
  | v :: rest => (unfitKey? v).or (unfitItem? rest)

end

/-- A value as a key. -/
def key (v : Value) : Except Misfit Value :=
  match v.unfitKey? with
  | some kind => .error (.notKey kind)
  | none => .ok v

/-- A value as a sequence. -/
def items : Value → Except Misfit (List Value)
  | .text t => .ok (t.map fun c => .text [c])
  | .bytes b => .ok (b.map fun byte => .int byte.toNat)
  | .list items | .tuple items | .set items => .ok items
  | .map entries => .ok (entries.map Prod.fst)
  | v => .error (.notSequence v.fullKind)

/-- A value as a map. -/
def entries : Value → Except Misfit (List (Value × Value))
  | .map entries => .ok entries
  | v => .error (.lacks v.fullKind .entries)

/-- An item that is to stand for an entry, at a place of its sequence. -/
def entry (index : Nat) (item : Value) : Except Misfit (Value × Value) :=
  match item.items with
  | .error _ => .error (.notPair index)
  | .ok [k, v] => k.key.map (·, v)
  | .ok parts => .error (.pairLength index parts.length)

/-- Items that are to stand for entries, from a place of their sequence on. -/
def entriesFrom (index : Nat) : List Value → Except Misfit (List (Value × Value))
  | [] => .ok []
  | item :: rest => do
    let first ← entry index item
    let others ← entriesFrom (index + 1) rest
    return first :: others

/-- A value as anything that stands for a map: a map, or a sequence of pairs. -/
def table : Value → Except Misfit (Table Value Value)
  | .map entries => .ok (Table.ofList entries)
  | v => do
    let items ← v.items
    let entries ← entriesFrom 0 items
    return Table.ofList entries

/-- A value as a text that can be searched. -/
def wording : Value → Except Misfit Text
  | .text t => .ok t
  | .bytes _ => .error .searchedBytes
  | v => .error (.lacks v.fullKind .search)

/-- The text of a value, if it has one. -/
def shown (v : Value) : Except Misfit Text :=
  if v.hasText then .ok v.display else .error .notShown

@[simp] theorem shown_text (t : Text) : shown (.text t) = .ok t := rfl

theorem shown_eq_ok_iff {v : Value} {t : Text} :
    v.shown = .ok t ↔ v.hasText = true ∧ v.display = t := by
  by_cases h : v.hasText = true <;> simp [shown, h]

end Dissection.Value
