import Dissection.Text

/-!
# Fields put together from pieces

A field may be captured in pieces.  A piece can ask for a slot; the others take
the lowest slots that no piece asks for, in the order in which they were
captured.  The field is the pieces in the order of their slots, with a blank
between neighbours; pieces in one slot keep the order of capture.

## Main definitions

* `Piece` — a text and the slot it asks for.
* `Pieces.seated` — every piece with the slot it gets.
* `Pieces.render` — the text of the field.
-/

namespace Dissection

/-- A piece of a field. -/
structure Piece where
  /-- The slot that the piece asks for. -/
  slot : Option Int
  text : Text
  deriving DecidableEq, Repr

namespace Pieces

/-- The slots that pieces ask for. -/
def taken (pieces : List Piece) : List Int := pieces.filterMap (·.slot)

/-- Fewer slots lie above a slot than lie at it or above it. -/
theorem length_filter_succ_lt {slots : List Int} {n : Nat} (h : (n : Int) ∈ slots) :
    (slots.filter (((n + 1 : Nat) : Int) ≤ ·)).length < (slots.filter ((n : Int) ≤ ·)).length := by
  have hsub : slots.filter (((n + 1 : Nat) : Int) ≤ ·) =
      (slots.filter ((n : Int) ≤ ·)).filter (((n + 1 : Nat) : Int) ≤ ·) := by
    rw [List.filter_filter]
    refine List.filter_congr fun x _ => ?_
    rw [← Bool.decide_and, decide_eq_decide]
    omega
  rw [hsub, List.length_filter_lt_length_iff_exists]
  refine ⟨n, List.mem_filter.2 ⟨h, decide_eq_true (Int.le_refl _)⟩, ?_⟩
  rw [decide_eq_true_eq]
  omega

/-- The lowest number from `n` on that is not among `slots`. -/
def nextFree (slots : List Int) (n : Nat) : Nat :=
  if (n : Int) ∈ slots then nextFree slots (n + 1) else n
termination_by (slots.filter ((n : Int) ≤ ·)).length
decreasing_by exact length_filter_succ_lt ‹_›

/-- Every piece with the slot it gets, in the order of capture.  The free slots
below `free` are already given away. -/
def seatFrom (slots : List Int) : (free : Nat) → List Piece → List (Int × Text)
  | _, [] => []
  | free, ⟨some slot, text⟩ :: rest => (slot, text) :: seatFrom slots free rest
  | free, ⟨none, text⟩ :: rest =>
    let slot := nextFree slots free
    ((slot : Int), text) :: seatFrom slots (slot + 1) rest

/-- Every piece with the slot it gets, in the order of capture. -/
def seated (pieces : List Piece) : List (Int × Text) := seatFrom (taken pieces) 0 pieces

/-- The pieces in the order of their slots. -/
def ordered (pieces : List Piece) : List Text :=
  ((seated pieces).mergeSort fun a b => a.1 ≤ b.1).map Prod.snd

/-- The text of a field made of pieces. -/
def render (pieces : List Piece) : Text := [' '].intercalate (ordered pieces)

end Pieces

end Dissection
