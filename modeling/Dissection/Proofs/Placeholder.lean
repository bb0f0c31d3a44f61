import Dissection.Placeholder
import Dissection.Proofs.Traversal

/-!
# Reading placeholders

A placeholder keeps the text that it was read from, and a text without a mark in front
is the name of a plain field.  The only texts that are refused without a report are
those whose slot has more digits than are read.

## Main definitions

* `Placeholder.HasShortSlot` — a text whose slot, if it asks for one, can be read.

## Main statements

* `Text.cutLast?_eq_some_iff` — the cut at the last occurrence of a mark.
* `Placeholder.raw_of_parse` — a placeholder's own text.
* `Placeholder.parse_plain` — a plain name.
* `Placeholder.parse_ne_slotTooLong` — what short slots rule out.
-/

namespace Dissection

namespace Text

/-! ## The last mark -/

theorem cutLast?_eq_none_iff {mark : Char} {text : Text} :
    cutLast? mark text = none ↔ mark ∉ text := by
  induction text with
  | nil => simp [cutLast?]
  | cons c text ih =>
    rw [cutLast?]
    cases h : cutLast? mark text with
    | none =>
      have hmem : mark ∉ text := ih.1 h
      by_cases hc : c = mark
      · simp [hc]
      · simp [hc, hmem, Ne.symm hc]
    | some parts =>
      have hmem : mark ∈ text := by
        by_contra hn
        rw [ih.2 hn] at h
        cases h
      simp [hmem]

theorem cutLast?_append_cons {mark : Char} {after : Text} (h : mark ∉ after) (before : Text) :
    cutLast? mark (before ++ mark :: after) = some (before, after) := by
  induction before with
  | nil =>
    rw [List.nil_append, cutLast?, cutLast?_eq_none_iff.2 h]
    simp
  | cons c before ih => rw [List.cons_append, cutLast?, ih]

/-- The cut at the last mark: no mark follows it. -/
theorem cutLast?_eq_some_iff {mark : Char} {text before after : Text} :
    cutLast? mark text = some (before, after) ↔
      text = before ++ mark :: after ∧ mark ∉ after := by
  constructor
  · intro h
    induction text generalizing before with
    | nil => cases h
    | cons c text ih =>
      rw [cutLast?] at h
      split at h
      · next b a hs =>
        cases h
        obtain ⟨rfl, hn⟩ := ih hs
        exact ⟨rfl, hn⟩
      · next hs =>
        split at h
        · next hc =>
          cases h
          exact ⟨by rw [hc]; rfl, cutLast?_eq_none_iff.1 hs⟩
        · cases h
  · rintro ⟨rfl, h⟩
    exact cutLast?_append_cons h before

end Text

namespace Placeholder

open Text

/-! ## The text of a placeholder -/

@[simp] theorem raw_named (name : Text) (modifier : Modifier) (raw : Text) :
    (named name modifier raw).raw = raw := by
  rw [named]
  split <;> rfl

theorem raw_of_parseAppend {raw body : Text} {q : Placeholder}
    (h : parseAppend raw body = .ok q) : q.raw = raw := by
  rw [parseAppend] at h
  split at h
  · cases h
    exact raw_named ..
  · next name order _ =>
    cases hs : readSlot raw order with
    | error e =>
      rw [hs] at h
      cases h
    | ok slot =>
      rw [hs] at h
      cases h
      exact raw_named ..

/-- A placeholder keeps the text that it was read from. -/
theorem raw_of_parse {raw : Text} {q : Placeholder} (h : parse raw = .ok q) : q.raw = raw := by
  rw [parse] at h
  split at h
  · cases h
    exact raw_named ..
  · exact raw_of_parseAppend h
  · cases h
    exact raw_named ..
  · cases h
    exact raw_named ..
  · split at h <;> cases h

/-- A text without a mark in front is the name of a plain field. -/
theorem parse_plain {name : Text} (hne : name ≠ [])
    (hm : ∀ c ∈ name.head?, isMark c = false) : parse name = .ok ⟨name, .normal, name⟩ := by
  cases name with
  | nil => contradiction
  | cons c name =>
    have hc : isMark c = false := hm c rfl
    simp [parse, hc, named]

/-! ## Slots that can be read -/

/-- A text that asks for no slot, or for one that has no more digits than are read. -/
def HasShortSlot (raw : Text) : Prop :=
  ∀ name order, raw = '+' :: name ++ '/' :: order → (∀ c ∈ order, (Digit.ascii? c).isSome) →
    order.length ≤ Numeral.limit

/-- What is refused for its digits is a slot with more digits than are read. -/
theorem readSlot_eq_slotTooLong {raw order : Text} {digits : Nat}
    (h : readSlot raw order = .error (.slotTooLong digits)) :
    (∀ c ∈ order, (Digit.ascii? c).isSome) ∧ Numeral.limit < order.length := by
  rw [readSlot] at h
  split at h
  · cases h
  · cases h
  · next found _ hf =>
    split at h
    · cases h
    · next hlimit =>
      have hdigits := Traversal.mapM_eq_some_iff.1 hf
      have hread : ∀ c ∈ order, (Digit.ascii? c).isSome :=
        ((List.forall₂_and_left _ _).1 (hdigits.imp fun c d hd => ⟨by rw [hd]; rfl, hd⟩)).1
      have hlength : order.length = found.length := hdigits.length_eq
      exact ⟨hread, by omega⟩

theorem parse_ne_slotTooLong {raw : Text} (h : HasShortSlot raw) (digits : Nat) :
    parse raw ≠ .error (.slotTooLong digits) := by
  intro hp
  rw [parse] at hp
  split at hp
  · cases hp
  · next hm =>
    have hraw : raw = '+' :: raw.dropWhile isMark := by
      conv_lhs => rw [← List.takeWhile_append_dropWhile (p := isMark) (l := raw), hm]
      rfl
    rw [parseAppend] at hp
    split at hp
    · cases hp
    · next name order hc =>
      obtain ⟨hbody, -⟩ := cutLast?_eq_some_iff.1 hc
      cases hs : readSlot raw order with
      | ok slot =>
        rw [hs] at hp
        cases hp
      | error e =>
        rw [hs] at hp
        cases hp
        obtain ⟨hdigits, hlong⟩ := readSlot_eq_slotTooLong hs
        have hshort := h name order (by rw [List.cons_append, ← hbody]; exact hraw) hdigits
        omega
  · cases hp
  · cases hp
  · split at hp <;> cases hp

end Placeholder

end Dissection
