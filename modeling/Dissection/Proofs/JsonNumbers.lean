import Dissection.Json.Writer
import Dissection.Proofs.JsonGrammar
import Dissection.Proofs.Numeral

/-!
# Numbers of the grammar

Integers and finite binary64 numbers are written as numbers of the grammar of JSON.  The digits
of a decimal start with a zero only if it is zero: the grid point that reads back as a positive
magnitude is not zero, and only zeros at the end of its digits are left out.  So there is no
leading zero in front of the point, wherever it stands.

## Main definitions

* `Shortest.Decimal.IsProper` — no digit of a decimal is a leading zero, except for zero itself.

## Main statements

* `Shortest.isProper_ofRank` — the shortest decimal of a magnitude is one like that.
* `Json.isNumber_of_integer`, `Json.isNumber_number` — integers and finite numbers.
-/

namespace Dissection

open Text Json

/-! ## Digits -/

namespace Numeral

theorem isDigit_of_mem_ofNat {n : Nat} {c : Char} (h : c ∈ ofNat n) : c.isDigit = true :=
  Nat.isDigit_of_mem_toDigits (by decide) (by decide) h

theorem isDigit_of_mem_zeros {n : Nat} {c : Char} (h : c ∈ List.replicate n '0') :
    c.isDigit = true := by
  rw [List.eq_of_mem_replicate h]
  rfl

/-- Zeros in front of digits are digits. -/
theorem isDigits_zeros_append {digits : Text} (n : Nat) (h : IsDigits digits) :
    IsDigits (List.replicate n '0' ++ digits) :=
  ⟨List.append_ne_nil_of_right_ne_nil _ h.1,
    List.forall_mem_append.2 ⟨fun _ hc => isDigit_of_mem_zeros hc, h.2⟩⟩

theorem isDigits_ofNat (n : Nat) : IsDigits (ofNat n) :=
  ⟨ofNat_ne_nil n, fun _ hc => isDigit_of_mem_ofNat hc⟩

/-- The digits of a number that is not zero start with another digit than zero. -/
theorem ofNat_eq_cons_of_ne_zero {n : Nat} (hn : n ≠ 0) :
    ∃ first rest, ofNat n = first :: rest ∧ first.isDigit = true ∧ first ≠ '0' ∧
      ∀ c ∈ rest, c.isDigit = true := by
  obtain ⟨first, rest, hfirst, -⟩ := ofNat_eq_cons n
  have hdigits := (isDigits_ofNat n).2
  rw [hfirst, List.forall_mem_cons] at hdigits
  refine ⟨first, rest, hfirst, hdigits.1, ?_, hdigits.2⟩
  rintro rfl
  exact hn (eq_zero_of_ofNat_eq hfirst)

theorem isWhole_ofNat (n : Nat) : IsWhole (ofNat n) := by
  by_cases hn : n = 0
  · subst hn
    exact .zero
  · obtain ⟨first, rest, hdigits, hfirst, hzero, hrest⟩ := ofNat_eq_cons_of_ne_zero hn
    rw [hdigits]
    exact .leading hfirst hzero hrest

end Numeral

/-! ## Grid points -/

theorem Binary64.unitsOfRank_pos {rank : Nat} (h : rank ≠ 0) : 0 < unitsOfRank rank := by
  have hpow : ∀ e, 0 < Nat.pow 2 e := fun _ => Nat.pow_pos (by decide)
  rw [unitsOfRank]
  split
  · exact Nat.pos_of_ne_zero h
  · exact Nat.mul_pos (Nat.add_pos_left (hpow 52) _) (hpow _)

namespace Shortest

variable {rank c : Nat} {p : Int} {d : Decimal} {first : Char} {rest : Text}

theorem powerOfTen_pos (p : Int) : 0 < (powerOfTen p).2 := by
  rw [powerOfTen]
  split
  · exact Nat.one_pos
  · exact Nat.pow_pos (by decide)

/-- Zero does not read back as a positive magnitude. -/
theorem ne_zero_of_readsBack (hrank : rank ≠ 0) (h : readsBack rank c p = true) : c ≠ 0 := by
  rintro rfl
  have hlow : 0 < (readsBack.unitsBelow rank + readsBack.here rank) * (powerOfTen p).2 :=
    Nat.mul_pos (Nat.add_pos_right _ (Binary64.unitsOfRank_pos hrank)) (powerOfTen_pos p)
  rw [readsBack] at h
  simp only [Nat.zero_mul] at h
  split at h
  · simp only [Bool.and_eq_true, decide_eq_true_eq] at h
    exact Nat.not_le.2 hlow h.1
  · simp only [Bool.and_eq_true, decide_eq_true_eq] at h
    exact Nat.not_lt_zero _ h.1

/-- A point that is found on a grid reads back. -/
theorem readsBack_of_onGrid? (h : onGrid? rank p = some c) : readsBack rank c p = true := by
  have hpoint : ∀ {point : Nat}, readsBack rank point p = true → some point = some c →
      readsBack rank c p = true := fun hreads heq => Option.some.inj heq ▸ hreads
  rw [onGrid?] at h
  dsimp only at h
  split at h
  · next hnearest => exact hpoint hnearest h
  · split at h
    · next hbelow => exact hpoint hbelow h
    · split at h
      · next habove => exact hpoint habove h
      · cases h

/-! ## Decimals -/

/-- Zeros are left out at the end only. -/
theorem withoutZeros_cons (hfirst : first ≠ '0') (rest : Text) :
    withoutZeros (first :: rest) = first :: withoutZeros rest := by
  simp only [withoutZeros, List.reverse_cons, List.dropWhile_append]
  split
  · next hempty =>
    rw [List.isEmpty_iff] at hempty
    simp [hfirst, hempty]
  · simp

theorem withoutZeros_subset (digits : Text) : withoutZeros digits ⊆ digits := by
  intro c hc
  rw [withoutZeros, List.mem_reverse] at hc
  exact List.mem_reverse.1 ((List.dropWhile_suffix _).subset hc)

/-- The digits of zero, or digits of which the first is not a zero. -/
def Decimal.IsProper (d : Decimal) : Prop :=
  d = ⟨['0'], 1⟩ ∨
    ∃ first rest, d.digits = first :: rest ∧ first.isDigit = true ∧ first ≠ '0' ∧
      ∀ c ∈ rest, c.isDigit = true

theorem isProper_search (hrank : rank ≠ 0) {leading : Int} {more count : Nat}
    (h : search rank leading more count = some d) : d.IsProper := by
  induction more generalizing count with
  | zero => cases h
  | succ more ih =>
    rw [search] at h
    dsimp only at h
    split at h
    · next c hc =>
      cases h
      obtain ⟨first, rest, hdigits, hfirst, hzero, hrest⟩ :=
        Numeral.ofNat_eq_cons_of_ne_zero (ne_zero_of_readsBack hrank (readsBack_of_onGrid? hc))
      refine .inr ⟨first, withoutZeros rest, ?_, hfirst, hzero, ?_⟩
      · rw [hdigits, withoutZeros_cons hzero]
      · exact fun x hx => hrest x (withoutZeros_subset rest hx)
    · exact ih h

/-- No digit of the shortest decimal of a magnitude is a leading zero, except for zero itself. -/
theorem isProper_ofRank (rank : Nat) : (ofRank rank).IsProper := by
  rw [ofRank]
  split
  · exact .inl rfl
  · next hrank =>
    cases h : search rank (leadingPower rank) 17 1 with
    | none => exact .inl rfl
    | some d => exact isProper_search hrank h

theorem isExponent_exponent (e : Int) : IsExponent ('e' :: exponent e) := by
  have hdigits := Numeral.isDigits_zeros_append (2 - (Numeral.ofNat e.natAbs).length)
    (Numeral.isDigits_ofNat e.natAbs)
  have hsign : [if e < 0 then '-' else '+'] = [] ∨ [if e < 0 then '-' else '+'] = ['+'] ∨
      [if e < 0 then '-' else '+'] = ['-'] := by
    split <;> simp
  have hexponent := IsExponent.digits (.inl rfl : 'e' = 'e' ∨ 'e' = 'E') hsign hdigits
  exact hexponent

/-- A decimal is written as a number of the grammar without a sign. -/
theorem Decimal.IsProper.exists_parts (h : d.IsProper) :
    ∃ whole fraction exponent, d.text = whole ++ fraction ++ exponent ∧ IsWhole whole ∧
      IsFraction fraction ∧ IsExponent exponent := by
  have hzero : IsDigits ['0'] := Numeral.isDigits_ofNat 0
  rcases h with rfl | ⟨first, rest, hdigits, hfirst, hne, hrest⟩
  · exact ⟨['0'], '.' :: ['0'], [], rfl, .zero, .digits hzero, .absent⟩
  rw [Decimal.text, hdigits]
  split
  · split
    · -- the digits are behind the point
      have hall : IsDigits (List.replicate (-d.point).toNat '0' ++ first :: rest) :=
        Numeral.isDigits_zeros_append _ ⟨by simp, List.forall_mem_cons.2 ⟨hfirst, hrest⟩⟩
      exact ⟨['0'], _, [], by simp, .zero, .digits hall, .absent⟩
    · -- the first digit is in front of the point
      obtain ⟨more, hmore⟩ : ∃ more, d.point.toNat = more + 1 := ⟨d.point.toNat - 1, by omega⟩
      have hfront : ∀ c ∈ rest.take more ++ List.replicate (more - rest.length) '0',
          c.isDigit = true :=
        List.forall_mem_append.2 ⟨fun c hc => hrest c (List.mem_of_mem_take hc),
          fun _ hc => Numeral.isDigit_of_mem_zeros hc⟩
      have hback : IsDigits (if rest.drop more = [] then ['0'] else rest.drop more) := by
        split
        · exact hzero
        · next hnonempty => exact ⟨hnonempty, fun c hc => hrest c (List.mem_of_mem_drop hc)⟩
      refine ⟨_, _, [], ?_, .leading hfirst hne hfront, .digits hback, .absent⟩
      simp [hmore]
  · -- the first digit is the whole part
    have hwhole : IsWhole [first] := .leading hfirst hne (by simp)
    have hfraction : IsFraction (if rest = [] then [] else '.' :: rest) := by
      split
      · exact .absent
      · next hnonempty => exact .digits ⟨hnonempty, hrest⟩
    exact ⟨[first], _, _, by simp, hwhole, hfraction, isExponent_exponent (d.point - 1)⟩

end Shortest

/-! ## Numbers -/

namespace Json

theorem isNumber_ofInt (n : Int) : IsNumber (Numeral.ofInt n) := by
  have hparts : ∀ {sign : Text} (m : Nat), sign = [] ∨ sign = ['-'] →
      IsNumber (sign ++ Numeral.ofNat m) := by
    intro sign m hsign
    simpa using IsNumber.parts hsign (Numeral.isWhole_ofNat m) .absent .absent
  cases n with
  | ofNat n => exact hparts n (.inl rfl)
  | negSucc n => exact hparts (n + 1) (.inr rfl)

theorem isNumber_of_integer {n : Int} {text : Text} (h : integer n = .ok text) :
    IsNumber text := by
  rw [integer] at h
  split at h
  · cases h
    exact isNumber_ofInt n
  · cases h

/-- A finite number is written as a number of the grammar. -/
theorem isNumber_number {x : Binary64} (hx : x.isFinite = true) : IsNumber (number x) := by
  cases x with
  | finite negative rank =>
    obtain ⟨whole, fraction, exponent, htext, hwhole, hfraction, hexponent⟩ :=
      (Shortest.isProper_ofRank rank.val).exists_parts
    have hsign : (if negative then ['-'] else []) = [] ∨
        (if negative then ['-'] else []) = ['-'] := by
      cases negative <;> simp
    rw [number, Binary64.text, htext, ← List.append_assoc, ← List.append_assoc]
    exact .parts hsign hwhole hfraction hexponent
  | infinite | nan => cases hx

/-- What is not finite is written as its name. -/
theorem number_mem_nonFiniteNames {x : Binary64} (hx : x.isFinite = false) :
    number x ∈ nonFiniteNames := by
  cases x with
  | finite => cases hx
  | infinite negative => cases negative <;> decide
  | nan => decide

end Json

end Dissection
