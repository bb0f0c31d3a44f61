import Dissection.Conversion
import Dissection.Proofs.JsonNumbers
import Dissection.Proofs.Substitution
import Mathlib.Data.List.DropRight

/-!
# The grammar of integers

Among the printable characters of ASCII only ten are digits and only one is a blank.  A text of
them is read as an integer exactly if, without the blanks around it, it is at most one sign and
then groups of digits with a single underscore between neighbours, and the groups have no more
digits in all than are read.  What is read is the number that the digits spell to the base ten.

The text that an integer is shown as is one such numeral, with zeros in front of its digits or
without, so a field that is put into a template and read again is the integer that it was.

## Main definitions

* `Text.PrintableAscii`, `Text.unpadded` — texts of ASCII, and what is left without blanks.
* `Numeral.Spells` — the numerals and the integers that they spell.
* `Numeral.zeroPadded` — the digits of an integer behind zeros.

## Main statements

* `Numeral.moreDigits_append`, `Numeral.exists_groups_of_moreDigits` — groups of digits.
* `Numeral.read?_eq_some_iff` — reading decides the grammar.
* `Numeral.spells_zeroPadded` — what is shown is a numeral.
* `Conversion.toInt_numeral` — converting texts, and showing integers.
-/

namespace Dissection

open Text

/-! ## Characters of ASCII -/

namespace Text

variable {text : Text}

/-- Every character is one of ASCII and no control character. -/
def PrintableAscii (text : Text) : Prop := ∀ c ∈ text, 0x20 ≤ c.toNat ∧ c.toNat ≤ 0x7E

instance : DecidablePred PrintableAscii := fun text =>
  List.decidableBAll (fun c : Char => 0x20 ≤ c.toNat ∧ c.toNat ≤ 0x7E) text

/-- A text without the blanks U+0020 at its two ends. -/
def unpadded (text : Text) : Text := (text.dropWhile (· = ' ')).rdropWhile (· = ' ')

theorem mem_of_mem_unpadded {c : Char} (h : c ∈ text.unpadded) : c ∈ text :=
  (List.dropWhile_suffix _).subset ((List.rdropWhile_prefix _ _).subset h)

theorem dropWhile_congr {p q : Char → Bool} (h : ∀ c ∈ text, p c = q c) :
    text.dropWhile p = text.dropWhile q := by
  induction text with
  | nil => rfl
  | cons c text ih =>
    obtain ⟨hc, htext⟩ := List.forall_mem_cons.1 h
    rw [List.dropWhile_cons, List.dropWhile_cons, hc, ih htext]

/-- Of the printable characters of ASCII only U+0020 is a blank. -/
theorem isBlank_of_printable {c : Char} (h : 0x20 ≤ c.toNat ∧ c.toNat ≤ 0x7E) :
    Blank.isBlank c = decide (c = ' ') := by
  have hspace : c = ' ' ↔ c.toNat = 0x20 :=
    ⟨fun hc => hc ▸ rfl, fun hc => Char.toNat_inj.1 hc⟩
  simp only [Blank.isBlank, hspace]
  grind

theorem PrintableAscii.trimmed_eq (h : text.PrintableAscii) : text.trimmed = text.unpadded := by
  have hfront : text.dropWhile Blank.isBlank = text.dropWhile (· = ' ') :=
    dropWhile_congr fun c hc => isBlank_of_printable (h c hc)
  rw [trimmed, unpadded, List.rdropWhile, hfront]
  congr 1
  refine dropWhile_congr fun c hc => isBlank_of_printable (h c ?_)
  exact (List.dropWhile_suffix _).subset (List.mem_reverse.1 hc)

/-- Blanks around a text without blanks are taken off. -/
theorem unpadded_replicate (before after : Nat) {core : Text} (h : ' ' ∉ core) :
    unpadded (List.replicate before ' ' ++ core ++ List.replicate after ' ') = core := by
  have hblanks : ∀ n, ∀ c ∈ List.replicate n ' ', decide (c = ' ') = true := fun n c hc => by
    simp [List.eq_of_mem_replicate hc]
  have hkept : ∀ {text : Text}, ' ' ∉ text → text.dropWhile (· = ' ') = text := by
    intro text htext
    cases text with
    | nil => rfl
    | cons c text => simp [Ne.symm (List.ne_of_not_mem_cons htext)]
  cases core with
  | nil => simp [unpadded, List.rdropWhile]
  | cons c core =>
    have hc : c ≠ ' ' := Ne.symm (List.ne_of_not_mem_cons h)
    rw [unpadded, List.append_assoc, List.dropWhile_append_of_pos (hblanks before),
      List.cons_append, List.dropWhile_cons_of_neg (by simp [hc]), ← List.cons_append,
      List.rdropWhile, List.reverse_append, List.reverse_replicate,
      List.dropWhile_append_of_pos (hblanks after), hkept (by rwa [List.mem_reverse]),
      List.reverse_reverse]

namespace Digit

variable {c : Char} {d : Nat}

/-- A digit of ASCII is of the first script. -/
theorem value?_of_isDigit (h : c.isDigit = true) : value? c = some (c.toNat - '0'.toNat) := by
  have hrange : 0x30 ≤ c.toNat ∧ c.toNat < 0x30 + 10 := by
    simp only [Char.isDigit, Bool.and_eq_true, decide_eq_true_eq] at h
    exact ⟨h.1, Nat.lt_succ_of_le h.2⟩
  rw [value?, zeros, List.find?_cons_of_pos (by simpa using hrange)]
  rfl

/-- The digits of the other scripts are beyond ASCII. -/
theorem isDigit_of_value? (hc : c.toNat ≤ 0x7E) (h : value? c = some d) : c.isDigit = true := by
  have hzeros : ∀ first ∈ zeros, first = 0x30 ∨ 0x7E < first := by decide
  obtain ⟨first, hfirst, -⟩ := Option.map_eq_some_iff.1 h
  have hrange := List.find?_some hfirst
  simp only [Bool.and_eq_true, decide_eq_true_eq] at hrange
  rcases hzeros first (List.mem_of_find?_eq_some hfirst) with rfl | hbeyond
  · simp only [Char.isDigit, Bool.and_eq_true, decide_eq_true_eq]
    exact ⟨hrange.1, Nat.le_of_lt_succ hrange.2⟩
  · omega

end Digit

end Text

namespace Numeral

variable {text mark : Text} {groups : List Text} {found : List Nat} {n unit : Int}

/-! ## The grammar -/

/-- A sign, and the unit that it stands for. -/
inductive IsSign : Text → Int → Prop
  | absent : IsSign [] 1
  | plus : IsSign ['+'] 1
  | minus : IsSign ['-'] (-1)

/-- A numeral and the integer that it spells.  It is at most one sign, and groups of digits with
an underscore between neighbours that have no more digits in all than are read. -/
inductive Spells : Text → Int → Prop
  | groups {mark : Text} {unit : Int} {groups : List Text} :
      IsSign mark unit → groups ≠ [] → (∀ group ∈ groups, Json.IsDigits group) →
      groups.flatten.length ≤ limit →
      Spells (mark ++ ['_'].intercalate groups) (unit * Nat.ofDigitChars 10 groups.flatten 0)

/-! ## Digits -/

/-- The value of a digit of ASCII. -/
def digitValue (c : Char) : Nat := c.toNat - '0'.toNat

/-- Digits spell the same number, read or not. -/
theorem ofDigits_map_digitValue (text : Text) :
    ofDigits (text.map digitValue) = Nat.ofDigitChars 10 text 0 := by
  rw [ofDigits, List.foldl_map, Nat.ofDigitChars_eq_foldl]
  rfl

/-- Behind the first group each group stands behind an underscore. -/
theorem intercalate_underscore (group : Text) (groups : List Text) :
    ['_'].intercalate (group :: groups) = group ++ groups.flatMap ('_' :: ·) := by
  induction groups generalizing group with
  | nil => simp
  | cons next groups ih => rw [List.intercalate_cons_cons, ih]; simp

/-- Digits are a first one and others. -/
theorem exists_cons_of_isDigits (h : Json.IsDigits text) :
    ∃ c rest, text = c :: rest ∧ c.isDigit = true ∧ ∀ d ∈ rest, d.isDigit = true := by
  obtain ⟨hne, hdigits⟩ := h
  obtain ⟨c, rest, rfl⟩ := List.exists_cons_of_ne_nil hne
  obtain ⟨hc, hrest⟩ := List.forall_mem_cons.1 hdigits
  exact ⟨c, rest, rfl, hc, hrest⟩

theorem moreDigits_cons {c : Char} (hc : c.isDigit = true) (text : Text) :
    moreDigits (c :: text) = (digitValue c :: (moreDigits text).1, (moreDigits text).2) := by
  rw [moreDigits.eq_def]
  simp only [Digit.value?_of_isDigit hc]
  rfl

theorem moreDigits_underscore {c : Char} (hc : c.isDigit = true) (text : Text) :
    moreDigits ('_' :: c :: text) = moreDigits (c :: text) := by
  have hunderscore : Digit.value? '_' = none := by decide
  rw [moreDigits_cons hc, moreDigits.eq_def]
  simp only [hunderscore, Digit.value?_of_isDigit hc, if_true]
  rfl

/-- Digits and the groups behind them are read to the end. -/
theorem moreDigits_append {front : Text} (hfront : ∀ c ∈ front, c.isDigit = true)
    (hgroups : ∀ group ∈ groups, Json.IsDigits group) :
    moreDigits (front ++ groups.flatMap ('_' :: ·)) =
      ((front ++ groups.flatten).map digitValue, []) := by
  -- group by group, and in each of them digit by digit
  induction groups generalizing front with
  | nil =>
    induction front with
    | nil => rfl
    | cons c front ih =>
      obtain ⟨hc, hfront⟩ := List.forall_mem_cons.1 hfront
      rw [List.cons_append, moreDigits_cons hc, ih hfront]
      rfl
  | cons group groups ihgroups =>
    obtain ⟨hgroup, hgroups⟩ := List.forall_mem_cons.1 hgroups
    induction front with
    | nil =>
      have hrest := ihgroups hgroup.2 hgroups
      obtain ⟨c, rest, rfl, hc, -⟩ := exists_cons_of_isDigits hgroup
      rw [List.nil_append, List.flatMap_cons, List.cons_append, List.cons_append,
        moreDigits_underscore hc, ← List.cons_append, hrest, List.nil_append, List.flatten_cons]
    | cons c front ih =>
      obtain ⟨hc, hfront⟩ := List.forall_mem_cons.1 hfront
      rw [List.cons_append, moreDigits_cons hc, ih hfront]
      rfl

/-- What is read to the end is digits and the groups behind them. -/
theorem exists_groups_of_moreDigits (htext : ∀ c ∈ text, c.toNat ≤ 0x7E)
    (h : (moreDigits text).2 = []) :
    ∃ (front : Text) (groups : List Text), (∀ c ∈ front, c.isDigit = true) ∧
      (∀ group ∈ groups, Json.IsDigits group) ∧ text = front ++ groups.flatMap ('_' :: ·) := by
  fun_induction moreDigits text with
  | case1 => exact ⟨[], [], by simp, by simp, rfl⟩
  | case2 c rest d hd digits after hrest ih =>
    obtain ⟨hc, htext⟩ := List.forall_mem_cons.1 htext
    obtain ⟨front, groups, hfront, hgroups, rfl⟩ := ih htext (by rw [hrest]; exact h)
    have hdigit := Digit.isDigit_of_value? hc hd
    exact ⟨c :: front, groups, List.forall_mem_cons.2 ⟨hdigit, hfront⟩, hgroups, rfl⟩
  | case4 c rest d hd digits after hrest hnone ih =>
    obtain ⟨-, hc, htext⟩ : _ ∧ _ ∧ _ := by simpa only [List.forall_mem_cons] using htext
    obtain ⟨front, groups, hfront, hgroups, rfl⟩ := ih htext (by rw [hrest]; exact h)
    have hdigit := Digit.isDigit_of_value? hc hd
    have hgroup : Json.IsDigits (c :: front) :=
      ⟨List.cons_ne_nil _ _, List.forall_mem_cons.2 ⟨hdigit, hfront⟩⟩
    exact ⟨[], (c :: front) :: groups, by simp, List.forall_mem_cons.2 ⟨hgroup, hgroups⟩,
      by simp⟩
  | case3 | case5 | case6 => cases h

/-- Groups of digits are read to the end. -/
theorem digits_intercalate (hne : groups ≠ []) (hgroups : ∀ group ∈ groups, Json.IsDigits group) :
    digits (['_'].intercalate groups) = (groups.flatten.map digitValue, []) := by
  obtain ⟨group, groups, rfl⟩ := List.exists_cons_of_ne_nil hne
  obtain ⟨hgroup, hothers⟩ := List.forall_mem_cons.1 hgroups
  obtain ⟨c, rest, rfl, hc, hrest⟩ := exists_cons_of_isDigits hgroup
  rw [intercalate_underscore, List.cons_append]
  simp only [digits, Digit.value?_of_isDigit hc, moreDigits_append hrest hothers]
  rfl

theorem flatten_ne_nil (hne : groups ≠ []) (hgroups : ∀ group ∈ groups, Json.IsDigits group) :
    groups.flatten ≠ [] := by
  obtain ⟨group, groups, rfl⟩ := List.exists_cons_of_ne_nil hne
  rw [List.flatten_cons]
  exact List.append_ne_nil_of_left_ne_nil (hgroups group List.mem_cons_self).1 _

/-- What is read to the end, and is not empty, is groups of digits. -/
theorem exists_groups_of_digits (htext : ∀ c ∈ text, c.toNat ≤ 0x7E) (hfound : found ≠ [])
    (h : digits text = (found, [])) :
    ∃ groups, groups ≠ [] ∧ (∀ group ∈ groups, Json.IsDigits group) ∧
      text = ['_'].intercalate groups := by
  unfold digits at h
  split at h
  · cases h
    exact absurd rfl hfound
  · next c rest =>
    obtain ⟨hc, hrest⟩ := List.forall_mem_cons.1 htext
    split at h
    · next d hd =>
      obtain ⟨front, groups, hfront, hgroups, rfl⟩ :=
        exists_groups_of_moreDigits hrest (congrArg Prod.snd h)
      have hdigit := Digit.isDigit_of_value? hc hd
      have hgroup : Json.IsDigits (c :: front) :=
        ⟨List.cons_ne_nil _ _, List.forall_mem_cons.2 ⟨hdigit, hfront⟩⟩
      refine ⟨(c :: front) :: groups, List.cons_ne_nil _ _,
        List.forall_mem_cons.2 ⟨hgroup, hgroups⟩, ?_⟩
      rw [intercalate_underscore, List.cons_append]
    · cases h

/-! ## Signs -/

/-- What is taken for a sign is one, and leads the text. -/
theorem exists_isSign_of_sign (text : Text) :
    ∃ mark unit, IsSign mark unit ∧ text = mark ++ (sign text).2 ∧
      ∀ magnitude, signed (sign text).1 magnitude = unit * magnitude := by
  cases text with
  | nil => exact ⟨[], 1, .absent, rfl, by simp [sign, signed]⟩
  | cons c rest =>
    rw [sign]
    split_ifs with hminus hplus
    · exact ⟨['-'], -1, .minus, by simp [hminus], by simp [signed]⟩
    · exact ⟨['+'], 1, .plus, by simp [hplus], by simp [signed]⟩
    · exact ⟨[], 1, .absent, rfl, by simp [signed]⟩

/-- A sign in front of a digit is taken for it. -/
theorem sign_append (hmark : IsSign mark unit) (htext : ∀ c ∈ text.head?, c.isDigit = true) :
    (sign (mark ++ text)).2 = text ∧
      ∀ magnitude, signed (sign (mark ++ text)).1 magnitude = unit * magnitude := by
  cases hmark with
  | plus | minus => simp [sign, signed]
  | absent =>
    cases text with
    | nil => simp [sign, signed]
    | cons c rest =>
      have hc : c.isDigit = true := htext c rfl
      have hminus : c ≠ '-' := by
        rintro rfl
        cases hc
      have hplus : c ≠ '+' := by
        rintro rfl
        cases hc
      simp [sign, signed, hminus, hplus]

theorem isDigit_head?_intercalate (hgroups : ∀ group ∈ groups, Json.IsDigits group) :
    ∀ c ∈ (['_'].intercalate groups).head?, c.isDigit = true := by
  cases groups with
  | nil => simp
  | cons group groups =>
    obtain ⟨first, rest, rfl, hfirst, -⟩ :=
      exists_cons_of_isDigits (hgroups group List.mem_cons_self)
    rw [intercalate_underscore]
    simpa using hfirst

/-! ## Reading -/

/-- In ASCII a text is read exactly if it is a numeral without its blanks. -/
theorem read?_eq_some_iff (h : ∀ c ∈ text.trimmed, c.toNat ≤ 0x7E) :
    read? text = some n ↔ Spells text.trimmed n := by
  rw [read?]
  generalize text.trimmed = core at h ⊢
  constructor
  · intro hread
    obtain ⟨mark, unit, hmark, hcore, hunit⟩ := exists_isSign_of_sign core
    dsimp only at hread
    split at hread
    · cases hread
    · cases hread
    · next found hnil hdigits =>
      obtain ⟨hlimit, hread⟩ := Option.ite_none_right_eq_some.1 hread
      obtain rfl := Option.some.inj hread
      obtain ⟨groups, hne, hgroups, hrest⟩ := exists_groups_of_digits
        (fun c hc => h c (hcore ▸ List.mem_append_right mark hc)) hnil hdigits
      rw [hrest, digits_intercalate hne hgroups, Prod.mk.injEq] at hdigits
      obtain rfl := hdigits.1
      rw [hunit, ofDigits_map_digitValue, hcore, hrest]
      exact .groups hmark hne hgroups (by rwa [List.length_map] at hlimit)
  · intro hspells
    cases hspells with
    | @groups mark unit groups hmark hne hgroups hlimit =>
      obtain ⟨hrest, hunit⟩ := sign_append hmark (isDigit_head?_intercalate hgroups)
      have hsign : sign (mark ++ ['_'].intercalate groups) =
          ((sign (mark ++ ['_'].intercalate groups)).1, ['_'].intercalate groups) :=
        Prod.ext rfl hrest
      rw [hsign]
      dsimp only
      rw [digits_intercalate hne hgroups]
      split
      · next heq =>
        exact absurd (List.map_eq_nil_iff.1 (Prod.mk.inj heq).1) (flatten_ne_nil hne hgroups)
      · next heq => cases (Prod.mk.inj heq).2
      · next found hnil heq =>
        obtain rfl := (Prod.mk.inj heq).1
        rw [List.length_map, if_pos hlimit, hunit, ofDigits_map_digitValue]

/-! ## Showing -/

/-- The decimal text of an integer with zeros in front of its digits. -/
def zeroPadded (zeros : Nat) (n : Int) : Text :=
  (if n < 0 then ['-'] else []) ++ (List.replicate zeros '0' ++ ofNat n.natAbs)

theorem zeroPadded_zero (n : Int) : zeroPadded 0 n = ofInt n := by
  cases n with
  | ofNat n => simp [zeroPadded, ofInt]
  | negSucc n => simp [zeroPadded, ofInt]

theorem toList_toString (n : Int) : (toString n).toList = ofInt n := by
  cases n with
  | ofNat n =>
    change (Nat.repr n).toList = ofNat n
    simp [Nat.repr, ofNat]
  | negSucc n =>
    change ("-" ++ Nat.repr (n + 1)).toList = '-' :: ofNat (n + 1)
    simp [Nat.repr, ofNat]

/-- The text that an integer is shown as is a numeral, whatever zeros stand in front of its
digits, as long as there are not too many. -/
theorem spells_zeroPadded {zeros : Nat} (h : zeros + (ofNat n.natAbs).length ≤ limit) :
    Spells (zeroPadded zeros n) n := by
  have hmark : IsSign (if n < 0 then ['-'] else []) (if n < 0 then -1 else 1) := by
    split
    · exact .minus
    · exact .absent
  have hdigits : Json.IsDigits (List.replicate zeros '0' ++ ofNat n.natAbs) :=
    isDigits_zeros_append zeros (isDigits_ofNat n.natAbs)
  have hvalue : Nat.ofDigitChars 10 (List.replicate zeros '0' ++ ofNat n.natAbs) 0 = n.natAbs := by
    rw [Nat.ofDigitChars_append, Nat.ofDigitChars_replicate_zero, Nat.mul_zero, ofNat,
      Nat.ofDigitChars_toDigits (by decide) (by decide)]
  have hlimit : [List.replicate zeros '0' ++ ofNat n.natAbs].flatten.length ≤ limit := by
    simpa using h
  have hspells := Spells.groups hmark (List.cons_ne_nil _ []) (List.forall_mem_singleton.2 hdigits)
    hlimit
  have hsigned : (if n < 0 then -1 else 1) * (n.natAbs : Int) = n := by
    split <;> omega
  rwa [List.intercalate_singleton, List.flatten_singleton, hvalue, hsigned] at hspells

/-- It holds neither blanks nor anything beyond ASCII. -/
theorem range_of_mem_zeroPadded {zeros : Nat} {c : Char} (h : c ∈ zeroPadded zeros n) :
    0x20 < c.toNat ∧ c.toNat ≤ 0x7E := by
  have hdigit : ∀ {c : Char}, c.isDigit = true → 0x20 < c.toNat ∧ c.toNat ≤ 0x7E := by
    intro c hc
    simp only [Char.isDigit, Bool.and_eq_true, decide_eq_true_eq] at hc
    exact ⟨Nat.lt_of_lt_of_le (by decide) hc.1, Nat.le_trans hc.2 (by decide)⟩
  rw [zeroPadded, List.mem_append, List.mem_append] at h
  rcases h with hmark | hzero | hdigits
  · split at hmark
    · rw [List.mem_singleton.1 hmark]
      decide
    · cases hmark
  · exact hdigit (isDigit_of_mem_zeros hzero)
  · exact hdigit (isDigit_of_mem_ofNat hdigits)

end Numeral

/-! ## Converting -/

namespace Conversion

variable {text : Text} {n : Int}

theorem toInt_text_eq_ok_iff : toInt (.text text) = .ok n ↔ Numeral.read? text = some n := by
  rw [toInt]
  cases Numeral.read? text <;> simp

theorem toInt_text_eq_error (h : Numeral.read? text = none) :
    toInt (.text text) = .error (.uncoercible (.text text)) := by
  rw [toInt, h]

theorem toInt_text_iff_of_printable (h : text.PrintableAscii) :
    toInt (.text text) = .ok n ↔ Numeral.Spells text.unpadded n := by
  have htrimmed := h.trimmed_eq
  rw [toInt_text_eq_ok_iff, ← htrimmed]
  refine Numeral.read?_eq_some_iff fun c hc => ?_
  rw [htrimmed] at hc
  exact (h c (mem_of_mem_unpadded hc)).2

/-- Zeros in front of the digits and blanks around the text change nothing. -/
theorem toInt_zeroPadded {zeros : Nat}
    (h : zeros + (Numeral.ofNat n.natAbs).length ≤ Numeral.limit) (before after : Nat) :
    toInt (.text (List.replicate before ' ' ++ Numeral.zeroPadded zeros n ++
      List.replicate after ' ')) = .ok n := by
  have hblank : ∀ count, PrintableAscii (List.replicate count ' ') := fun count c hc => by
    rw [List.eq_of_mem_replicate hc]
    decide
  have hnumeral : PrintableAscii (Numeral.zeroPadded zeros n) := fun c hc =>
    (Numeral.range_of_mem_zeroPadded hc).imp_left Nat.le_of_lt
  have hprintable : PrintableAscii (List.replicate before ' ' ++ Numeral.zeroPadded zeros n ++
      List.replicate after ' ') := by
    simp only [PrintableAscii, List.forall_mem_append]
    exact ⟨⟨hblank before, hnumeral⟩, hblank after⟩
  have hnotMem : ' ' ∉ Numeral.zeroPadded zeros n := fun hmem =>
    absurd (Numeral.range_of_mem_zeroPadded hmem).1 (by decide)
  rw [toInt_text_iff_of_printable hprintable, unpadded_replicate before after hnotMem]
  exact Numeral.spells_zeroPadded h

/-- A printable text of ASCII is converted to an integer exactly if it is a numeral without the
blanks around it, and then to the integer that the numeral spells; every other one is not
converted.  So an integer that can be shown comes back from its decimal text, with zeros in front
of its digits and blanks around it, and a reference to a field that holds it becomes that text. -/
theorem toInt_numeral :
    (∀ text : Text, text.PrintableAscii →
      (∀ n, toInt (.text text) = .ok n ↔ Numeral.Spells text.unpadded n) ∧
      ((∀ n, ¬ Numeral.Spells text.unpadded n) →
        toInt (.text text) = .error (.uncoercible (.text text)))) ∧
    ∀ n : Int, Numeral.isShown n.natAbs = true →
      Numeral.zeroPadded 0 n = (toString n).toList ∧
      (∀ zeros before after, zeros + (Numeral.ofNat n.natAbs).length ≤ Numeral.limit →
        toInt (.text (List.replicate before ' ' ++ Numeral.zeroPadded zeros n ++
          List.replicate after ' ')) = .ok n) ∧
      ∀ (r : Record) (name : Text), r.get? (.text name) = some (.int n) →
        ¬ Pattern.closing <:+: name →
          Template.interpolate r (Pattern.opening ++ name ++ Pattern.closing) =
            .ok (toString n).toList := by
  refine ⟨fun text htext => ⟨fun n => toInt_text_iff_of_printable htext, fun hnone => ?_⟩,
    fun n hn => ⟨?_, fun zeros before after h => toInt_zeroPadded h before after, ?_⟩⟩
  · cases hread : Numeral.read? text with
    | none => exact toInt_text_eq_error hread
    | some n =>
      have hspells := (toInt_text_iff_of_printable htext).1 (toInt_text_eq_ok_iff.2 hread)
      exact absurd hspells (hnone n)
  · rw [Numeral.zeroPadded_zero, Numeral.toList_toString]
  · intro r name hget hname
    rw [Numeral.toList_toString, Template.interpolate_reference hname,
      Template.substitute_of_value hget (by simp), Value.shown_eq_ok_iff]
    exact ⟨hn, rfl⟩

/-- A numeral of two groups, one with two underscores in a row, and a number behind zeros. -/
theorem toInt_numeral_underscored :
    toInt (.text "  -1_234 ") = .ok (-1234) ∧
      toInt (.text "1__234") = .error (.uncoercible (.text "1__234")) ∧
      toInt (.text " -007 ") = .ok (-7) ∧
      Template.interpolate (Table.ofList [(.text "n", .int (-7))]) "%\x7bn\x7d" =
        .ok "-7".toList := by
  obtain ⟨hread, hshow⟩ := toInt_numeral
  have hgroups : Numeral.Spells "-1_234" (-1234) :=
    @Numeral.Spells.groups _ _ ["1", "234"] .minus (by decide) (by simp [Json.IsDigits]) (by decide)
  have hnone : Numeral.read? "1__234" = none := by decide +kernel
  obtain ⟨-, hpadded, hreference⟩ := hshow (-7) (by decide)
  refine ⟨((hread _ (by decide)).1 _).2 hgroups, (hread _ (by decide)).2 fun n hspells => ?_,
    hpadded 2 1 1 (by decide), hreference _ "n" (by decide +kernel) (by decide)⟩
  have htwice := toInt_text_eq_ok_iff.1 (((hread _ (by decide)).1 n).2 hspells)
  rw [hnone] at htwice
  cases htwice

end Conversion

end Dissection
