import Dissection.Json.Reader
import Dissection.Proofs.Numeral
import Dissection.Proofs.OneLine
import Mathlib.Data.List.Infix
import Mathlib.Data.List.TakeWhile

/-!
# Numerals that are too long to be read

A reader of JSON gives up on a text that is not JSON, and it gives up where an integer has more
digits than are read.  The latter it does only where that many digits stand in a row.

Every reader leaves a part of the text that it was given, its end, so what is found in what is
left was in the text from the beginning.

## Main definitions

* `Text.HasRun` — digits that stand in a row.
* `Json.Within` — what a reader may come to in a text.

## Main statements

* `Json.within_values` — values are read within their text.
* `Json.hasRun_of_read` — giving up on an integer.
* `Lines.hasRun_of_unify` — digits in a row stand in a row before line ends are unified.
-/

namespace Dissection

open Text

/-! ## Digits in a row -/

/-- This many digits stand in a row. -/
def Text.HasRun (text : Text) (count : Nat) : Prop :=
  ∃ run : Text, run <:+: text ∧ run.length = count ∧ ∀ c ∈ run, c.isDigit = true

theorem Text.HasRun.of_suffix {text rest : Text} {count : Nat} (h : rest.HasRun count)
    (hrest : rest <:+ text) : text.HasRun count := by
  obtain ⟨run, hrun, hlength, hdigits⟩ := h
  exact ⟨run, hrun.trans hrest.isInfix, hlength, hdigits⟩

namespace Json

variable {α β : Type} {text rest : Text} {fuel opened : Nat}

/-! ## Within a text -/

/-- What a reader may come to in a text: it leaves the end of it, or finds it wrong, or gives up
on an integer with too many digits, which stand in the text. -/
def Within (text : Text) : Except Fault (α × Text) → Prop
  | .ok (_, rest) => rest <:+ text
  | .error (.wrong _ _) => True
  | .error (.numeralTooLong digits) => Numeral.limit < digits ∧ text.HasRun digits

theorem Within.of_suffix {result : Except Fault (α × Text)} (h : Within rest result)
    (hrest : rest <:+ text) : Within text result := by
  cases result with
  | ok found => exact List.IsSuffix.trans h hrest
  | error fault =>
    cases fault with
    | wrong => trivial
    | numeralTooLong => exact ⟨h.1, h.2.of_suffix hrest⟩

theorem Within.map {result : Except Fault (α × Text)} (h : Within text result)
    {f : α × Text → β × Text} (hf : ∀ found, (f found).2 = found.2) :
    Within text (result.map f) := by
  cases result with
  | ok found =>
    show (f found).2 <:+ text
    rw [hf found]
    exact h
  | error fault => cases fault <;> exact h

/-- A reader that goes on with what another one leaves. -/
theorem Within.bind {result : Except Fault (α × Text)} (h : Within text result)
    {next : α × Text → Except Fault (β × Text)}
    (hnext : ∀ x rest, rest <:+ text → Within text (next (x, rest))) :
    Within text (result >>= next) := by
  cases result with
  | ok found => exact hnext found.1 found.2 h
  | error fault => cases fault <;> exact h

theorem suffix_skipSpace (text : Text) : skipSpace text <:+ text := List.dropWhile_suffix _

/-- What follows the mark behind white space is the end of what was left. -/
theorem suffix_of_skipSpace_eq {c : Char} {after : Text} (h : skipSpace rest = c :: after)
    (hrest : rest <:+ text) : after <:+ text :=
  (List.suffix_cons c after).trans ((h ▸ suffix_skipSpace rest).trans hrest)

/-! ## Strings -/

theorem suffix_of_fourDigits? {n : Nat} (h : fourDigits? text = some (n, rest)) :
    rest <:+ text := by
  unfold fourDigits? at h
  split at h
  · next a b c d e after =>
    obtain ⟨_, -, hrest⟩ := Option.map_eq_some_iff.1 h
    cases hrest
    exact ⟨[a, b, c, d], rfl⟩
  · cases h

theorem suffix_of_lowHalf? {low : Nat} (h : lowHalf? text = .ok (some (low, rest))) :
    rest <:+ text := by
  unfold lowHalf? at h
  split at h
  · next after =>
    split at h
    · cases h
    · split at h
      · cases h
      · next found left hfound =>
        split at h
        · cases h
          exact (suffix_of_fourDigits? hfound).trans ⟨['\\', 'u'], rfl⟩
        · cases h
  · cases h

theorem wrong_of_lowHalf? {fault : Fault} (h : lowHalf? text = .error fault) :
    ∃ reason left, fault = .wrong reason left := by
  unfold lowHalf? at h
  split at h
  · split at h
    · cases h
    · split at h
      · cases h
        exact ⟨_, _, rfl⟩
      · cases h
  · cases h

theorem within_escaped (text : Text) : Within text (escaped text) := by
  unfold escaped
  split
  · trivial
  · next c after =>
    have hafter : after <:+ c :: after := List.suffix_cons c after
    split
    · split
      · trivial
      · next high left hfound =>
        have hleft : left <:+ c :: after := (suffix_of_fourDigits? hfound).trans hafter
        split
        · cases hlow : lowHalf? left with
          | error fault =>
            obtain ⟨reason, place, rfl⟩ := wrong_of_lowHalf? hlow
            trivial
          | ok half =>
            cases half with
            | none => exact hleft
            | some half => exact (suffix_of_lowHalf? hlow).trans hleft
        · exact hleft
    · split_ifs
      all_goals first | exact hafter | trivial

theorem within_stringFrom (opened fuel : Nat) (text : Text) :
    Within text (stringFrom opened fuel text) := by
  induction fuel generalizing text with
  | zero => trivial
  | succ fuel ih =>
    cases text with
    | nil => trivial
    | cons c rest =>
      have hrest : rest <:+ c :: rest := List.suffix_cons c rest
      rw [stringFrom]
      split_ifs
      · exact hrest
      · trivial
      · refine ((within_escaped rest).of_suffix hrest).bind fun character left hleft => ?_
        exact ((ih left).of_suffix hleft).bind fun characters left hleft => hleft
      · trivial
      · exact ((ih rest).of_suffix hrest).bind fun characters left hleft => hleft

theorem within_string (text : Text) : Within text (string text) := within_stringFrom _ _ text

/-! ## Numbers -/

theorem suffix_of_digits (text : Text) : (digits text).2 <:+ text := List.dropWhile_suffix _

/-- As many digits are read as stand at the front of the text. -/
theorem hasRun_of_digits (text : Text) : text.HasRun (digits text).1.length := by
  have hdigits : ∀ c ∈ text.takeWhile fun c => (Digit.ascii? c).isSome,
      (Digit.ascii? c).isSome = true := by
    intro c hc
    exact List.mem_takeWhile_imp (p := fun c => (Digit.ascii? c).isSome) hc
  refine ⟨text.takeWhile fun c => (Digit.ascii? c).isSome, (List.takeWhile_prefix _).isInfix,
    ?_, ?_⟩
  · exact (List.filterMap_length_eq_length.2 hdigits).symm
  · exact fun c hc => Digit.isSome_ascii?_iff.1 (hdigits c hc)

theorem suffix_of_wholePart (text : Text) : (wholePart text).2 <:+ text := by
  unfold wholePart
  split
  · exact List.suffix_cons _ _
  · exact suffix_of_digits text

/-- A whole part is long only if its digits stand in the text. -/
theorem hasRun_of_wholePart (text : Text) (h : Numeral.limit < (wholePart text).1.length) :
    text.HasRun (wholePart text).1.length := by
  unfold wholePart at h ⊢
  split at h
  · have hlimit : Numeral.limit < 1 := h
    exact absurd hlimit (by decide)
  · exact hasRun_of_digits text

theorem suffix_of_fractionPart {found : List Nat} (h : fractionPart text = some (found, rest)) :
    rest <:+ text := by
  unfold fractionPart at h
  split at h
  · next after =>
    split at h
    · cases h
    · have hrest : (digits after).2 = rest := by rw [Option.some.inj h]
      exact hrest ▸ (suffix_of_digits after).trans (List.suffix_cons _ _)
  · cases h

theorem suffix_of_sign (text : Text) : (Numeral.sign text).2 <:+ text := by
  unfold Numeral.sign
  split
  · exact List.suffix_refl _
  · split_ifs
    · exact List.suffix_cons _ _
    · exact List.suffix_cons _ _
    · exact List.suffix_refl _

theorem suffix_of_exponentPart {n : Int} (h : exponentPart text = some (n, rest)) :
    rest <:+ text := by
  unfold exponentPart at h
  split at h
  · cases h
  · next e after =>
    have hsign : (Numeral.sign after).2 <:+ e :: after :=
      (suffix_of_sign after).trans (List.suffix_cons e after)
    split at h
    · simp only at h
      split at h
      · cases h
      · next found left _ hdigits =>
        have hleft : (digits (Numeral.sign after).2).2 = left := by rw [hdigits]
        cases h
        exact hleft ▸ (suffix_of_digits _).trans hsign
    · cases h

/-- An integer is given up on if its whole part, behind its sign, is too long. -/
theorem within_numberFrom (text : Text) : Within text (numberFrom text) := by
  unfold numberFrom
  split
  next negative unsigned heq =>
    have hunsigned : unsigned <:+ text := by
      split at heq
      · cases heq
        exact List.suffix_cons _ _
      · cases heq
        exact List.suffix_refl _
    split
    · trivial
    · next whole left _ hwhole =>
      have hleft : left <:+ text := by
        have hsuffix := suffix_of_wholePart unsigned
        rw [hwhole] at hsuffix
        exact hsuffix.trans hunsigned
      split
      · split_ifs with hlength
        · exact hleft
        · have hlimit : Numeral.limit < whole.length := Nat.lt_of_not_le hlength
          -- a lone zero is not too long, so the whole part is all digits that stand there
          have hrun := hasRun_of_wholePart unsigned
          rw [hwhole] at hrun
          exact ⟨hlimit, (hrun hlimit).of_suffix hunsigned⟩
      · -- what a fraction and an exponent leave, if there are any
        have hafter : (fractionPart left).elim left (·.2) <:+ text := by
          cases hpart : fractionPart left with
          | none => exact hleft
          | some part => exact (suffix_of_fractionPart hpart).trans hleft
        show (exponentPart _).elim _ (·.2) <:+ text
        cases hexponent : exponentPart ((fractionPart left).elim left (·.2)) with
        | none => exact hafter
        | some exponent => exact (suffix_of_exponentPart hexponent).trans hafter

/-! ## Values -/

theorem suffix_of_word? {v : Value} (h : word? text = some (v, rest)) : rest <:+ text := by
  obtain ⟨word, -, hfound⟩ := List.exists_of_findSome?_eq_some h
  simp only [Option.map_eq_some_iff] at hfound
  obtain ⟨left, hstrip, heq⟩ := hfound
  cases heq
  exact ⟨word.1, (strip?_eq_some_iff.1 hstrip).symm⟩

theorem suffix_skipSpace_cons (c : Char) (rest : Text) : skipSpace rest <:+ c :: rest :=
  (suffix_skipSpace rest).trans (List.suffix_cons c rest)

theorem within_value_add_one (helements : ∀ text, Within text (elements fuel text))
    (hmembers : ∀ text, Within text (members fuel text)) (text : Text) :
    Within text (value (fuel + 1) text) := by
  unfold value
  split
  · next rest => exact ((within_string rest).of_suffix (List.suffix_cons _ _)).map fun _ => rfl
  · next rest =>
    split
    · next after hspace => exact suffix_of_skipSpace_eq hspace (List.suffix_cons _ _)
    · exact ((helements _).of_suffix (suffix_skipSpace_cons _ rest)).map fun _ => rfl
  · next rest =>
    split
    · next after hspace => exact suffix_of_skipSpace_eq hspace (List.suffix_cons _ _)
    · exact ((hmembers _).of_suffix (suffix_skipSpace_cons _ rest)).map fun _ => rfl
  · split
    · next found hfound => exact suffix_of_word? hfound
    · exact within_numberFrom text

theorem within_elements_add_one (hvalue : ∀ text, Within text (value fuel text))
    (helements : ∀ text, Within text (elements fuel text)) (text : Text) :
    Within text (elements (fuel + 1) text) := by
  unfold elements
  refine (hvalue text).bind fun item left hleft => ?_
  dsimp only
  split
  · next after hspace => exact suffix_of_skipSpace_eq hspace hleft
  · next after hspace =>
    have hafter := (suffix_skipSpace after).trans (suffix_of_skipSpace_eq hspace hleft)
    exact ((helements _).of_suffix hafter).bind fun items last hlast => hlast
  · trivial

theorem within_members_add_one (hvalue : ∀ text, Within text (value fuel text))
    (hmembers : ∀ text, Within text (members fuel text)) (text : Text) :
    Within text (members (fuel + 1) text) := by
  unfold members
  split
  · next rest =>
    refine ((within_string rest).of_suffix (List.suffix_cons _ _)).bind fun name left hleft => ?_
    dsimp only
    split
    · next after hspace =>
      have hafter := (suffix_skipSpace after).trans (suffix_of_skipSpace_eq hspace hleft)
      refine ((hvalue _).of_suffix hafter).bind fun item left hleft => ?_
      dsimp only
      split
      · next last hspace => exact suffix_of_skipSpace_eq hspace hleft
      · next last hspace =>
        have hlast := (suffix_skipSpace last).trans (suffix_of_skipSpace_eq hspace hleft)
        exact ((hmembers _).of_suffix hlast).bind fun entries last hlast => hlast
      · trivial
    · trivial
  · trivial

/-- Values, and the items of arrays and objects, are read within their text. -/
theorem within_values (fuel : Nat) :
    (∀ text, Within text (value fuel text)) ∧ (∀ text, Within text (elements fuel text)) ∧
      ∀ text, Within text (members fuel text) := by
  induction fuel with
  | zero => exact ⟨fun _ => trivial, fun _ => trivial, fun _ => trivial⟩
  | succ fuel ih =>
    obtain ⟨hvalue, helements, hmembers⟩ := ih
    exact ⟨within_value_add_one helements hmembers, within_elements_add_one hvalue helements,
      within_members_add_one hvalue hmembers⟩

/-! ## Whole texts -/

/-- Where a whole text is given up on because of an integer, one of its values is. -/
theorem exists_of_document_eq_error {digits : Nat}
    (h : document text = .error (.numeralTooLong digits)) :
    ∃ fuel, value fuel (skipSpace text) = .error (.numeralTooLong digits) := by
  refine ⟨2 * text.length + 2, ?_⟩
  unfold document at h
  split at h
  · cases h
  · cases hvalue : value (2 * text.length + 2) (skipSpace text) with
    | error fault =>
      rw [hvalue] at h
      cases h
      rfl
    | ok found =>
      rw [hvalue] at h
      dsimp only [bind, Except.bind, pure, Except.pure] at h
      split at h
      · cases h
      · cases h

/-- Whoever gives up on an integer has found too many digits in a row. -/
theorem hasRun_of_read {digits : Nat} (h : read text = .error (.numeralTooLong digits)) :
    Numeral.limit < digits ∧ text.HasRun digits := by
  unfold read at h
  split at h
  · cases h
  · cases h
  · next count hdocument =>
    cases h
    obtain ⟨fuel, hvalue⟩ := exists_of_document_eq_error hdocument
    have hwithin := ((within_values fuel).1 (skipSpace text)).of_suffix (suffix_skipSpace text)
    rw [hvalue] at hwithin
    exact hwithin

end Json

/-! ## Line ends -/

namespace Lines

variable {text run : Text}

/-- What a text with unified line ends starts with, up to a line end, the text starts with. -/
theorem prefix_of_unify (hrun : '\n' ∉ run) (h : run <+: unify text) : run <+: text := by
  fun_induction unify text generalizing run with
  | case1 => exact h
  | case2 rest ih | case3 rest ih =>
    rcases List.prefix_cons_iff.1 h with rfl | ⟨run, rfl, -⟩
    · exact List.nil_prefix
    · exact absurd List.mem_cons_self hrun
  | case4 c rest _ _ ih =>
    rcases List.prefix_cons_iff.1 h with rfl | ⟨run, rfl, hrest⟩
    · exact List.nil_prefix
    · exact List.cons_prefix_cons.2 ⟨rfl, ih (fun hmem => hrun (List.mem_cons_of_mem c hmem)) hrest⟩

theorem infix_of_infix_cons (hrun : '\n' ∉ run) (h : run <:+: '\n' :: text) : run <:+: text := by
  rcases List.infix_cons_iff.1 h with hfirst | hrest
  · rcases List.prefix_cons_iff.1 hfirst with rfl | ⟨run, rfl, -⟩
    · exact List.nil_infix
    · exact absurd List.mem_cons_self hrun
  · exact hrest

/-- What stands on a line after line ends are unified stood in the text before. -/
theorem infix_of_unify (hrun : '\n' ∉ run) (h : run <:+: unify text) : run <:+: text := by
  fun_induction unify text with
  | case1 => exact h
  | case2 rest ih =>
    have hsuffix : rest <:+ '\r' :: '\n' :: rest := ⟨['\r', '\n'], rfl⟩
    exact (ih (infix_of_infix_cons hrun h)).trans hsuffix.isInfix
  | case3 rest _ ih =>
    exact (ih (infix_of_infix_cons hrun h)).trans (List.suffix_cons _ rest).isInfix
  | case4 c rest hpair hreturn ih =>
    rcases List.infix_cons_iff.1 h with hfirst | hrest
    · rw [← unify.eq_4 c rest hpair hreturn] at hfirst
      exact (prefix_of_unify hrun hfirst).isInfix
    · exact (ih hrest).trans (List.suffix_cons c rest).isInfix

/-- Digits that stand in a row after line ends are unified stood in a row before. -/
theorem hasRun_of_unify {count : Nat} (h : (unify text).HasRun count) : text.HasRun count := by
  obtain ⟨run, hrun, hlength, hdigits⟩ := h
  have hend : '\n' ∉ run := fun hmem => absurd (hdigits _ hmem) (by decide)
  exact ⟨run, infix_of_unify hend hrun, hlength, hdigits⟩

end Lines

end Dissection
