import Dissection.Json.Reader

/-!
# The digits of a number

A number is written in the decimal digits that spell it, without a leading zero unless it is
zero.  So digits are read as the number that they were written for, wherever they end.

## Main definitions

* `Numeral.digitsOf` — the values of the digits of a number.

## Main statements

* `Numeral.ofDigits_digitsOf` — the digits of a number spell it.
* `Numeral.eq_zero_of_ofNat_eq` — only zero starts with a zero.
* `Json.digits_append`, `Json.wholePart_ofNat_append` — reading them, whatever follows.
-/

namespace Dissection

open Text

/-! ## Digits -/

namespace Text.Digit

theorem ascii?_digitChar : ∀ {d : Nat}, d < 10 → ascii? d.digitChar = some d := by decide

theorem isSome_ascii?_iff {c : Char} : (ascii? c).isSome = true ↔ c.isDigit = true := by
  have hrange : ('0' ≤ c ∧ c ≤ '9') ↔ c.isDigit = true := by simp [Char.isDigit, Char.le_def]
  rw [← hrange, ascii?]
  split
  · next h => exact iff_of_true rfl h
  · next h => exact iff_of_false Bool.false_ne_true h

end Text.Digit

namespace Numeral

/-- The values of the digits of a number. -/
def digitsOf (n : Nat) : List Nat := (ofNat n).filterMap Digit.ascii?

theorem isSome_ascii?_of_mem_ofNat {n : Nat} {c : Char} (h : c ∈ ofNat n) :
    (Digit.ascii? c).isSome = true :=
  Digit.isSome_ascii?_iff.2 (Nat.isDigit_of_mem_toDigits (by decide) (by decide) h)

theorem ofNat_of_lt {n : Nat} (h : n < 10) : ofNat n = [n.digitChar] := Nat.toDigits_of_lt_base h

theorem ofNat_of_le {n : Nat} (h : 10 ≤ n) : ofNat n = ofNat (n / 10) ++ [(n % 10).digitChar] :=
  Nat.toDigits_of_base_le (by decide) h

theorem ofNat_ne_nil (n : Nat) : ofNat n ≠ [] := Nat.toDigits_ne_nil

theorem ofNat_eq_cons (n : Nat) :
    ∃ c front, ofNat n = c :: front ∧ (Digit.ascii? c).isSome = true := by
  cases h : ofNat n with
  | nil => exact absurd h (ofNat_ne_nil n)
  | cons c front => exact ⟨c, front, rfl, isSome_ascii?_of_mem_ofNat (h ▸ List.mem_cons_self)⟩

theorem digitsOf_eq_cons (n : Nat) : ∃ d more, digitsOf n = d :: more := by
  obtain ⟨c, front, hfirst, hc⟩ := ofNat_eq_cons n
  obtain ⟨d, hd⟩ := Option.isSome_iff_exists.1 hc
  exact ⟨d, front.filterMap Digit.ascii?, by rw [digitsOf, hfirst, List.filterMap_cons_some hd]⟩

theorem ofDigits_concat (digits : List Nat) (d : Nat) :
    ofDigits (digits ++ [d]) = 10 * ofDigits digits + d := by
  simp [ofDigits]

/-- The digits of a number spell it. -/
theorem ofDigits_digitsOf (n : Nat) : ofDigits (digitsOf n) = n := by
  induction n using Nat.strongRecOn with
  | ind n ih =>
    by_cases hn : n < 10
    · simp [digitsOf, ofNat_of_lt hn, Digit.ascii?_digitChar hn, ofDigits]
    · have hlast := Digit.ascii?_digitChar (Nat.mod_lt n (by decide : 0 < 10))
      have hfront := ih (n / 10) (by omega)
      rw [digitsOf, ofNat_of_le (by omega), List.filterMap_append, ← digitsOf]
      simp only [List.filterMap_cons, List.filterMap_nil, hlast]
      rw [ofDigits_concat, hfront]
      omega

/-- No digit is lost. -/
@[simp] theorem length_digitsOf (n : Nat) : (digitsOf n).length = (ofNat n).length :=
  List.filterMap_length_eq_length.2 fun _ hc => isSome_ascii?_of_mem_ofNat hc

/-- Only zero starts with a zero. -/
theorem eq_zero_of_ofNat_eq {n : Nat} {rest : Text} (h : ofNat n = '0' :: rest) : n = 0 := by
  induction n using Nat.strongRecOn generalizing rest with
  | ind n ih =>
    by_cases hn : n < 10
    · rw [ofNat_of_lt hn] at h
      have hzero : Digit.ascii? n.digitChar = some 0 := by
        rw [(List.cons.inj h).1]
        rfl
      rw [Digit.ascii?_digitChar hn] at hzero
      exact Option.some.inj hzero
    · have hfront := ofNat_ne_nil (n / 10)
      rw [ofNat_of_le (by omega)] at h
      cases hfirst : ofNat (n / 10) with
      | nil => exact absurd hfirst hfront
      | cons c front =>
        rw [hfirst] at h
        have hc : c = '0' := (List.cons.inj h).1
        have hzero := ih (n / 10) (by omega) (hc ▸ hfirst)
        omega

end Numeral

/-! ## Reading -/

namespace Json

open Numeral

variable {rest : Text}

/-- Digits are read up to a character that is none. -/
theorem digits_append {text : Text} (htext : ∀ c ∈ text, (Digit.ascii? c).isSome = true)
    (hrest : ∀ c ∈ rest.head?, Digit.ascii? c = none) :
    digits (text ++ rest) = (text.filterMap Digit.ascii?, rest) := by
  have htake : (rest.takeWhile fun c => (Digit.ascii? c).isSome) = [] := by
    cases rest with
    | nil => rfl
    | cons c rest => simp [hrest c rfl]
  have hdrop : (rest.dropWhile fun c => (Digit.ascii? c).isSome) = rest := by
    cases rest with
    | nil => rfl
    | cons c rest => simp [hrest c rfl]
  rw [digits, List.takeWhile_append_of_pos htext, List.dropWhile_append_of_pos htext, htake,
    hdrop, List.append_nil]

/-- The whole part of a numeral is the digits of a number, up to a character that is none. -/
theorem wholePart_ofNat_append (n : Nat) (hrest : ∀ c ∈ rest.head?, Digit.ascii? c = none) :
    wholePart (ofNat n ++ rest) = (digitsOf n, rest) := by
  have hdigits : digits (ofNat n ++ rest) = (digitsOf n, rest) :=
    digits_append (fun _ hc => isSome_ascii?_of_mem_ofNat hc) hrest
  unfold wholePart
  split
  · next rest' heq =>
    cases hfirst : ofNat n with
    | nil => exact absurd hfirst (ofNat_ne_nil n)
    | cons c front =>
      rw [hfirst, List.cons_append, List.cons.injEq] at heq
      obtain rfl := eq_zero_of_ofNat_eq (heq.1 ▸ hfirst)
      obtain rfl : front = [] := (List.cons.inj hfirst).2.symm
      rw [← heq.2]
      rfl
  · exact hdigits

end Json

end Dissection
