import Dissection.Text

/-!
# Dividing a text at a literal

A literal divides a text at its leftmost occurrence.  The copies that stand one
behind another from there on belong to the division, so what is left of the text
does not start with the literal.

The division is said here without the search: by the copies, by the positions in
front of them, and by what follows them.  The search for the leftmost occurrence and
the skipping of repeats compute it.

## Main definitions

* `Text.Unbordered` — a literal that does not overlap itself.
* `Text.Divides literal text before after` — the division of a text at a literal.

## Main statements

* `Text.cut?_eq_some_iff`, `Text.cut?_eq_none_iff` — what a cut finds.
* `Text.cut?_append` — a literal is cut where it is written.
* `Text.divides_iff` — a division is a cut with the repeats dropped.
* `Text.Divides.unique` — a literal divides a text in one way.
-/

namespace Dissection.Text

variable {literal text before after rest : Text}

/-! ## The leftmost occurrence -/

theorem strip?_eq_none_iff : strip? literal text = none ↔ ¬ literal <+: text := by
  rw [Option.eq_none_iff_forall_ne_some]
  constructor
  · rintro h ⟨rest, hr⟩
    exact h rest (strip?_eq_some_iff.2 hr.symm)
  · intro h rest hr
    exact h ⟨rest, (strip?_eq_some_iff.1 hr).symm⟩

theorem strip?_append (literal rest : Text) : strip? literal (literal ++ rest) = some rest :=
  strip?_eq_some_iff.2 rfl

theorem cut?_append_self (literal after : Text) :
    cut? literal (literal ++ after) = some ([], after) := by
  have hs := strip?_append literal after
  cases h : literal ++ after with
  | nil => rw [cut?, ← h, hs]; rfl
  | cons c text => rw [cut?, ← h, hs]

/-- Where the literal does not stand at the front, the cut lies behind the first
character. -/
theorem cut?_cons {c : Char} (h : ¬ literal <+: c :: text) :
    cut? literal (c :: text) =
      (cut? literal text).map fun (before, after) => (c :: before, after) := by
  rw [cut?, strip?_eq_none_iff.2 h]

/-- There is no cut exactly where the literal occurs nowhere. -/
theorem cut?_eq_none_iff : cut? literal text = none ↔ ¬ literal <:+: text := by
  induction text with
  | nil =>
    rw [cut?, Option.map_eq_none_iff, strip?_eq_none_iff, List.prefix_nil, List.infix_nil]
  | cons c text ih =>
    rw [List.infix_cons_iff, not_or]
    by_cases h : literal <+: c :: text
    · obtain ⟨rest, hr⟩ := h
      rw [← hr, cut?_append_self]
      simp
    · rw [cut?_cons h, Option.map_eq_none_iff, ih]
      simp [h]

/-- In front of a cut the literal occurs nowhere. -/
theorem not_prefix_drop_of_cut? (h : cut? literal text = some (before, after)) :
    ∀ i < before.length, ¬ literal <+: text.drop i := by
  induction text generalizing before with
  | nil =>
    intro i hi
    obtain ⟨rest, -, he⟩ := Option.map_eq_some_iff.1 h
    cases he
    simp at hi
  | cons c text ih =>
    by_cases hp : literal <+: c :: text
    · obtain ⟨rest, hr⟩ := hp
      rw [← hr, cut?_append_self] at h
      cases h
      intro i hi
      simp at hi
    · rw [cut?_cons hp] at h
      obtain ⟨⟨b, a⟩, hc, he⟩ := Option.map_eq_some_iff.1 h
      cases he
      intro i hi
      cases i with
      | zero => exact hp
      | succ i => exact ih hc i (by simpa using hi)

/-- A cut is the leftmost occurrence: the parts and the literal are the whole text, and
the literal stands at no position in front. -/
theorem cut?_eq_some_iff :
    cut? literal text = some (before, after) ↔
      text = before ++ literal ++ after ∧ ∀ i < before.length, ¬ literal <+: text.drop i := by
  constructor
  · intro h
    exact ⟨eq_of_cut? h, not_prefix_drop_of_cut? h⟩
  · rintro ⟨rfl, hleft⟩
    induction before with
    | nil => simpa using cut?_append_self literal after
    | cons c before ih =>
      have hfirst : ¬ literal <+: c :: (before ++ literal ++ after) := hleft 0 (by simp)
      have hlater : cut? literal (before ++ literal ++ after) = some (before, after) := by
        refine ih fun i hi => ?_
        simpa using hleft (i + 1) (by simpa using hi)
      simp only [List.cons_append]
      rw [cut?_cons hfirst, hlater]
      rfl

/-- What follows the literal decides nothing about the positions in front of it. -/
theorem prefix_drop_append_iff {i : Nat} (hi : i ≤ before.length) :
    literal <+: (before ++ literal ++ after).drop i ↔ literal <+: (before ++ literal).drop i := by
  have hdrop : (before ++ literal ++ after).drop i = (before ++ literal).drop i ++ after := by
    rw [List.drop_append_of_le_length (by simp; omega)]
  rw [hdrop]
  constructor
  · intro h
    refine List.prefix_of_prefix_length_le h (List.prefix_append _ _) ?_
    simp
    omega
  · intro h
    exact h.trans (List.prefix_append _ _)

/-- What stands before a cut is free of the literal. -/
theorem not_infix_of_cut? (hne : literal ≠ []) (h : cut? literal text = some (before, after)) :
    ¬ literal <:+: before := by
  rintro ⟨left, right, hb⟩
  obtain ⟨heq, hleft⟩ := cut?_eq_some_iff.1 h
  refine hleft left.length ?_ ?_
  · rw [← hb]
    simp only [List.length_append]
    have := List.length_pos_iff.2 hne
    omega
  · rw [heq, ← hb]
    simp

/-! ## Literals that do not overlap themselves -/

/-- A literal that starts with no end of itself, so that two of its occurrences never
share a character. -/
def Unbordered (literal : Text) : Prop :=
  ∀ i < literal.length, 0 < i → ¬ literal.drop i <+: literal

/-- Behind a text that is free of an unbordered literal the literal is cut where it is
written. -/
theorem cut?_append (hu : Unbordered literal) (hb : ¬ literal <:+: before) (after : Text) :
    cut? literal (before ++ literal ++ after) = some (before, after) := by
  refine cut?_eq_some_iff.2 ⟨rfl, fun i hi => ?_⟩
  rw [prefix_drop_append_iff (by omega), List.drop_append_of_le_length (by omega)]
  intro hp
  by_cases hshort : literal.length ≤ (before.drop i).length
  · have hin : literal <+: before.drop i :=
      List.prefix_of_prefix_length_le hp (List.prefix_append _ _) hshort
    exact hb (hin.isInfix.trans (List.drop_suffix i before).isInfix)
  · -- the occurrence reaches into the written literal, which then starts with an end of it
    have hlong : (before.drop i).length < literal.length := by omega
    refine hu (before.drop i).length hlong (by simp; omega) ?_
    obtain ⟨rest, hr⟩ := hp
    have hdrop := congrArg (List.drop (before.drop i).length) hr
    rw [List.drop_left, List.drop_append_of_le_length (by omega)] at hdrop
    exact ⟨rest, hdrop⟩

/-! ## Repeats -/

theorem dropRepeats_eq_self (h : ¬ literal <+: text) : dropRepeats literal text = text := by
  rw [dropRepeats]
  split
  · rfl
  · split
    · rfl
    · next rest hs => exact absurd ⟨rest, (strip?_eq_some_iff.1 hs).symm⟩ h

theorem dropRepeats_append (h : literal ≠ []) (rest : Text) :
    dropRepeats literal (literal ++ rest) = dropRepeats literal rest := by
  rw [dropRepeats, if_neg h]
  split
  · next hs => rw [strip?_append] at hs; cases hs
  · next found hs => rw [strip?_append] at hs; cases hs; rfl

theorem dropRepeats_replicate (h : literal ≠ []) (copies : Nat) (rest : Text) :
    dropRepeats literal ((List.replicate copies literal).flatten ++ rest) =
      dropRepeats literal rest := by
  induction copies with
  | zero => simp
  | succ copies ih =>
    rw [List.replicate_succ, List.flatten_cons, List.append_assoc, dropRepeats_append h, ih]

/-- What is dropped are copies of the literal. -/
theorem eq_replicate_append_dropRepeats (literal text : Text) :
    ∃ copies, text = (List.replicate copies literal).flatten ++ dropRepeats literal text := by
  fun_induction dropRepeats literal text with
  | case1 text => exact ⟨0, by simp⟩
  | case2 text _ _ => exact ⟨0, by simp⟩
  | case3 text _ rest hs ih =>
    obtain ⟨copies, hc⟩ := ih
    refine ⟨copies + 1, ?_⟩
    rw [List.replicate_succ, List.flatten_cons, List.append_assoc, ← hc]
    exact strip?_eq_some_iff.1 hs

/-- No copy is left at the front. -/
theorem not_prefix_dropRepeats (h : literal ≠ []) (text : Text) :
    ¬ literal <+: dropRepeats literal text := by
  fun_induction dropRepeats literal text with
  | case1 => contradiction
  | case2 text _ hs => exact strip?_eq_none_iff.1 hs
  | case3 text _ rest _ ih => exact ih

/-! ## Divisions -/

/-- A text divided at a literal: what stands before its leftmost occurrence, and what is
left behind the copies that start there. -/
structure Divides (literal text before after : Text) : Prop where
  /-- At least one copy stands between the parts. -/
  copies : ∃ more, text = before ++ (List.replicate (more + 1) literal).flatten ++ after
  /-- The literal stands at no position in front of the copies. -/
  leftmost : ∀ i < before.length, ¬ literal <+: text.drop i
  /-- All copies belong to the division. -/
  stops : ¬ literal <+: after

/-- A division is a cut with the repeats dropped. -/
theorem divides_iff (h : literal ≠ []) :
    Divides literal text before after ↔
      ∃ rest, cut? literal text = some (before, rest) ∧ after = dropRepeats literal rest := by
  constructor
  · intro hd
    obtain ⟨more, hm⟩ := hd.copies
    rw [List.replicate_succ, List.flatten_cons] at hm
    refine ⟨(List.replicate more literal).flatten ++ after, ?_, ?_⟩
    · exact cut?_eq_some_iff.2 ⟨by simpa using hm, hd.leftmost⟩
    · rw [dropRepeats_replicate h, dropRepeats_eq_self hd.stops]
  · rintro ⟨rest, hc, rfl⟩
    obtain ⟨heq, hleft⟩ := cut?_eq_some_iff.1 hc
    obtain ⟨more, hm⟩ := eq_replicate_append_dropRepeats literal rest
    refine ⟨⟨more, ?_⟩, hleft, not_prefix_dropRepeats h rest⟩
    rw [List.replicate_succ, List.flatten_cons, List.append_assoc, List.append_assoc, ← hm, heq]
    simp

/-- A literal divides a text in one way. -/
theorem Divides.unique (h : literal ≠ []) {before' after' : Text}
    (hd : Divides literal text before after) (hd' : Divides literal text before' after') :
    before = before' ∧ after = after' := by
  obtain ⟨rest, hc, rfl⟩ := (divides_iff h).1 hd
  obtain ⟨rest', hc', rfl⟩ := (divides_iff h).1 hd'
  rw [hc] at hc'
  cases hc'
  exact ⟨rfl, rfl⟩

end Dissection.Text
