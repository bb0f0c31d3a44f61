import Dissection.Proofs.Rendering
import Dissection.Text.Lines
import Mathlib.Tactic.SplitIfs

/-!
# JSON on one line

What is written as JSON holds no control character, so it is one line however lines are ended,
and unifying the line ends of a text leaves it as it is.

Texts are escaped, and what else is written are the marks of JSON, words, and numbers.

## Main definitions

* `Text.Unbroken` — no character of a text is below U+0020.

## Main statements

* `Json.unbroken_quoted`, `Json.unbroken_number` — strings and numbers.
* `Json.unbroken_of_write` — every value that can be written.
* `Lines.unify_of_unbroken` — line ends are unified without effect.
-/

namespace Dissection

/-! ## Texts without control characters -/

namespace Text

/-- No character is below U+0020. -/
def Unbroken (text : Text) : Prop := ∀ c ∈ text, 0x20 ≤ c.toNat

-- character by character of the text, not of all characters there are
instance : DecidablePred Unbroken := fun text =>
  List.decidableBAll (fun c : Char => 0x20 ≤ c.toNat) text

variable {text other : Text}

@[simp] theorem unbroken_nil : Unbroken [] := by simp [Unbroken]

@[simp] theorem unbroken_cons_iff {c : Char} :
    Unbroken (c :: text) ↔ 0x20 ≤ c.toNat ∧ Unbroken text := by
  simp [Unbroken]

@[simp] theorem unbroken_append_iff :
    Unbroken (text ++ other) ↔ Unbroken text ∧ Unbroken other := by
  simp [Unbroken, or_imp, forall_and]

theorem unbroken_replicate (n : Nat) {c : Char} (hc : 0x20 ≤ c.toNat) :
    Unbroken (List.replicate n c) := by
  intro x hx
  rwa [(List.mem_replicate.1 hx).2]

theorem unbroken_flatMap {f : Char → Text} (h : ∀ c ∈ text, Unbroken (f c)) :
    Unbroken (text.flatMap f) := by
  intro x hx
  obtain ⟨c, hc, hxc⟩ := List.mem_flatMap.1 hx
  exact h c hc x hxc

theorem Unbroken.sublist (h : Unbroken text) (hsub : other.Sublist text) : Unbroken other :=
  fun c hc => h c (hsub.subset hc)

theorem unbroken_intercalate {separator : Text} {texts : List Text} (hs : Unbroken separator)
    (h : ∀ text ∈ texts, Unbroken text) : Unbroken (separator.intercalate texts) := by
  induction texts with
  | nil => simp
  | cons text rest ih =>
    rw [List.forall_mem_cons] at h
    cases rest with
    | nil => simpa using h.1
    | cons next rest => simpa [List.intercalate_cons_cons, hs, h.1] using ih h.2

end Text

namespace Lines

/-- A text without control characters has no line ends to unify. -/
theorem unify_of_unbroken {text : Text} (h : text.Unbroken) : unify text = text := by
  fun_induction unify text with
  | case1 => rfl
  | case2 rest => simp at h
  | case3 rest => simp at h
  | case4 c rest _ _ ih => rw [ih (Text.unbroken_cons_iff.1 h).2]

end Lines

open Text

/-! ## Numbers -/

namespace Numeral

theorem unbroken_ofNat (n : Nat) : Unbroken (ofNat n) := by
  intro c hc
  have hdigit : c.isDigit = true := Nat.isDigit_of_mem_toDigits (by decide) (by decide) hc
  have hzero : '0'.toNat ≤ c.toNat := by
    simp only [Char.isDigit, Bool.and_eq_true, decide_eq_true_eq] at hdigit
    exact hdigit.1
  exact Nat.le_trans (by decide) hzero

theorem unbroken_ofInt (n : Int) : Unbroken (ofInt n) := by
  cases n with
  | ofNat n => exact unbroken_ofNat n
  | negSucc n => simp [ofInt, unbroken_ofNat]

end Numeral

namespace Shortest

theorem unbroken_digits_search {rank : Nat} {leading : Int} {more count : Nat} {d : Decimal}
    (h : search rank leading more count = some d) : Unbroken d.digits := by
  induction more generalizing count with
  | zero => cases h
  | succ more ih =>
    rw [search] at h
    dsimp only at h
    split at h
    · cases h
      have hsub : ∀ digits : Text, (withoutZeros digits).Sublist digits := by
        intro digits
        rw [withoutZeros, ← List.reverse_sublist, List.reverse_reverse]
        exact (List.dropWhile_suffix _).sublist
      exact (Numeral.unbroken_ofNat _).sublist (hsub _)
    · exact ih h

theorem unbroken_digits_ofRank (rank : Nat) : Unbroken (ofRank rank).digits := by
  rw [ofRank]
  split
  · decide
  · cases h : search rank (leadingPower rank) 17 1 with
    | none => decide
    | some d => exact unbroken_digits_search h

theorem unbroken_exponent (e : Int) : Unbroken (exponent e) := by
  have hzeros := unbroken_replicate (2 - (Numeral.ofNat e.natAbs).length)
    (by decide : 0x20 ≤ '0'.toNat)
  rw [exponent]
  split <;> simp [hzeros, Numeral.unbroken_ofNat]

theorem unbroken_text {d : Decimal} (h : Unbroken d.digits) : Unbroken d.text := by
  have hzeros : ∀ n, Unbroken (List.replicate n '0') := fun n => unbroken_replicate n (by decide)
  have htake : ∀ n, Unbroken (d.digits.take n) := fun n => h.sublist (List.take_sublist n _)
  have hdrop : ∀ n, Unbroken (d.digits.drop n) := fun n => h.sublist (List.drop_sublist n _)
  have htail : Unbroken d.digits.tail := h.sublist (List.tail_sublist _)
  rw [Decimal.text]
  split
  · split
    · simp [hzeros, h]
    · dsimp only
      split <;> simp [hzeros, htake, hdrop]
  · dsimp only
    split <;> simp [htake, htail, unbroken_exponent]

end Shortest

/-! ## Values -/

namespace Json

open Traversal

variable {fallback : Fallback} {v : Value} {text : Text}

theorem unbroken_number (x : Binary64) : Unbroken (number x) := by
  cases x with
  | finite negative rank =>
    have hdigits := Shortest.unbroken_text (Shortest.unbroken_digits_ofRank rank.val)
    cases negative <;> simp [number, Binary64.text, hdigits]
  | infinite negative => cases negative <;> decide
  | nan => decide

theorem unbroken_truth (b : Bool) : Unbroken (truth b) := by
  cases b <;> decide

theorem unbroken_integer {n : Int} (h : integer n = .ok text) : Unbroken text := by
  rw [integer] at h
  split at h
  · cases h
    exact Numeral.unbroken_ofInt n
  · cases h

theorem unbroken_hex (width n : Nat) : Unbroken (Text.Quoted.hex width n) := by
  have hdigit : ∀ d, d < 16 → 0x20 ≤ (Text.Quoted.hexDigit d).toNat := by decide
  induction width generalizing n with
  | zero => simp [Text.Quoted.hex]
  | succ width ih => simp [Text.Quoted.hex, ih, hdigit (n % 16) (Nat.mod_lt n (by decide))]

/-- Control characters are escaped. -/
theorem unbroken_character (c : Char) : Unbroken (character c) := by
  unfold character
  split_ifs
  any_goals decide
  · simp [unbroken_hex]
  · next hc => simpa using hc

theorem unbroken_quoted (text : Text) : Unbroken (quoted text) := by
  have hcharacters : Unbroken (text.flatMap character) :=
    unbroken_flatMap fun c _ => unbroken_character c
  simp [quoted, hcharacters]

theorem unbroken_between {opening closing : Char} {texts : List Text}
    (h : ∀ text ∈ texts, Unbroken text) (hopening : 0x20 ≤ opening.toNat)
    (hclosing : 0x20 ≤ closing.toNat) :
    Unbroken (opening :: commaSeparated texts ++ [closing]) := by
  have hitems : Unbroken (commaSeparated texts) := unbroken_intercalate (by decide) h
  simp [hopening, hclosing, hitems]

/-- In each case what is written holds no control character if its parts do not. -/
theorem unbroken_writeCases : WriteCases fallback fun _ text => Unbroken text where
  null := by decide
  bool := unbroken_truth
  int := unbroken_integer
  float := unbroken_number
  text := unbroken_quoted
  foreign shown _ := unbroken_quoted shown
  list h := unbroken_between (forall_mem_of_forall₂ h fun _ _ h => h) (by decide) (by decide)
  tuple h := unbroken_between (forall_mem_of_forall₂ h fun _ _ h => h) (by decide) (by decide)
  map h := by
    refine unbroken_between (forall_mem_of_forall₂ h ?_) (by decide) (by decide)
    rintro _ _ ⟨name, value, hvalue, rfl⟩
    simp [unbroken_quoted, hvalue]

/-- What is written holds no control character. -/
theorem unbroken_of_write (v : Value) {text : Text} (h : write fallback v = .ok text) :
    Unbroken text := unbroken_writeCases.of_write v h

end Json

end Dissection
