import Dissection.Filter
import Dissection.Proofs.Numeral
import Dissection.Proofs.Placeholder
import Mathlib.Data.List.Induction

/-!
# How placeholders are written

A placeholder that saves its capture is written in one of five forms: its name alone, or behind
a mark, and an ordered append with a slash and its slot behind the name.  What is written is
read as what it was written for, and what is read was written so, except that zeros may stand
in front of the slot.

Three kinds of text are left.  Nothing, a mark alone, and a slot without a name are placeholders
that drop their captures.  Several marks in front, and an append placeholder with something else
than digits behind its last slash, are refused with a report.

## Main definitions

* `Placeholder.WellFormed` — a name and a modifier that can be written.
* `Placeholder.written` — the text of a placeholder.
* `Placeholder.Form` — the ways for a text to begin.
* `Placeholder.IsSlot` — the texts that spell a slot.
* `Placeholder.Nameless`, `Placeholder.Refused`, `Placeholder.TooLong` — the texts that are not
  written so.

## Main statements

* `Numeral.exists_zeros` — digits are those of a number behind zeros.
* `Placeholder.readSlot_eq_ok_iff` — the slots that are read.
* `Placeholder.parse_written`, `Placeholder.written_of_parse` — writing and reading.
* `Placeholder.parse_inverts_written` — what is read, and how the rest is refused.
-/

namespace Dissection

open Text

/-! ## Digits behind zeros -/

namespace Text.Digit

/-- A digit is the character of its value. -/
theorem eq_digitChar_of_ascii? {c : Char} {d : Nat} (h : ascii? c = some d) :
    d < 10 ∧ c = d.digitChar := by
  have hvalue : ∀ n < 10, Char.ofNat (48 + n) = n.digitChar := by decide
  rw [ascii?, Option.ite_none_right_eq_some] at h
  obtain ⟨⟨hlow, hhigh⟩, hd⟩ := h
  have hlow : 48 ≤ c.toNat := hlow
  have hhigh : c.toNat ≤ 57 := hhigh
  obtain rfl : c.toNat - 48 = d := Option.some.inj hd
  have hlt : c.toNat - 48 < 10 := by omega
  refine ⟨hlt, ?_⟩
  rw [← hvalue _ hlt, Nat.add_sub_cancel' hlow, Char.ofNat_toNat]

end Text.Digit

namespace Numeral

variable {text : Text} {digits : List Nat}

theorem ofDigits_replicate_append (zeros : Nat) (digits : List Nat) :
    ofDigits (List.replicate zeros 0 ++ digits) = ofDigits digits := by
  induction zeros with
  | zero => rfl
  | succ zeros ih => exact ih

/-- The digits of a number have the values that spell it. -/
theorem mapM_ascii?_ofNat (n : Nat) : (ofNat n).mapM Digit.ascii? = some (digitsOf n) := by
  have hdigits : ∀ {text : Text}, (∀ c ∈ text, (Digit.ascii? c).isSome = true) →
      List.Forall₂ (fun c d => Digit.ascii? c = some d) text (text.filterMap Digit.ascii?) := by
    intro text h
    induction text with
    | nil => exact .nil
    | cons c text ih =>
      obtain ⟨hc, htext⟩ := List.forall_mem_cons.1 h
      obtain ⟨d, hd⟩ := Option.isSome_iff_exists.1 hc
      rw [List.filterMap_cons_some hd]
      exact .cons hd (ih htext)
  exact Traversal.mapM_eq_some_iff.2 (hdigits fun c => isSome_ascii?_of_mem_ofNat)

theorem mapM_ascii?_zeros (zeros n : Nat) :
    (List.replicate zeros '0' ++ ofNat n).mapM Digit.ascii? =
      some (List.replicate zeros 0 ++ digitsOf n) := by
  rw [Traversal.mapM_eq_some_iff]
  refine List.rel_append ?_ (Traversal.mapM_eq_some_iff.1 (mapM_ascii?_ofNat n))
  induction zeros with
  | zero => exact .nil
  | succ zeros ih => exact .cons rfl ih

/-- Digits are those of the number that they spell, behind zeros. -/
theorem exists_zeros (hne : text ≠ []) (h : text.mapM Digit.ascii? = some digits) :
    ∃ zeros, text = List.replicate zeros '0' ++ ofNat (ofDigits digits) := by
  induction text using List.reverseRecOn generalizing digits with
  | nil => contradiction
  | append_singleton front c ih =>
    obtain ⟨values, hvalues, last, hlast, rfl⟩ : ∃ values, front.mapM Digit.ascii? = some values ∧
        ∃ last, Digit.ascii? c = some last ∧ values ++ [last] = digits := by
      simpa [List.mapM_append, Option.bind_eq_some_iff] using h
    obtain ⟨hlt, rfl⟩ := Digit.eq_digitChar_of_ascii? hlast
    rw [ofDigits_concat]
    by_cases hfront : front = []
    · subst hfront
      obtain rfl : [] = values := Option.some.inj hvalues
      exact ⟨0, by simp [ofDigits, ofNat_of_lt hlt]⟩
    · obtain ⟨zeros, hzeros⟩ := ih hfront hvalues
      by_cases hvalue : ofDigits values = 0
      · -- the zero in front is one more zero
        refine ⟨zeros + 1, ?_⟩
        rw [hzeros, hvalue, Nat.mul_zero, Nat.zero_add, ofNat_of_lt hlt, List.replicate_succ']
        rfl
      · refine ⟨zeros, ?_⟩
        have hlast : (10 * ofDigits values + last) % 10 = last := by omega
        have hrest : (10 * ofDigits values + last) / 10 = ofDigits values := by omega
        rw [ofNat_of_le (by omega), hlast, hrest, ← List.append_assoc, ← hzeros]

end Numeral

/-! ## Kinds and slots -/

/-- A modifier is its kind with a slot where the kind has one, and every other combination of a
kind and a slot is refused. -/
theorem Modifier.ofKind_eq_ok_iff {kind : Kind} {slot : Option Int} {modifier : Modifier} :
    ofKind kind slot = .ok modifier ↔
      modifier.kind = kind ∧ modifier.slot?.map Int.ofNat = slot := by
  constructor
  · intro h
    rw [ofKind.eq_def] at h
    split at h <;> cases h <;> exact ⟨rfl, rfl⟩
  · rintro ⟨rfl, rfl⟩
    cases modifier <;> rfl

/-- An ordered append needs a slot that is not negative, and nothing else may have one. -/
theorem Modifier.exists_ofKind_iff {kind : Kind} {slot : Option Int} :
    (∃ modifier, ofKind kind slot = .ok modifier) ↔
      (kind = .appendAt ∧ ∃ order : Nat, slot = some (order : Int)) ∨
        (kind ≠ .appendAt ∧ slot = none) := by
  constructor
  · rintro ⟨modifier, h⟩
    obtain ⟨rfl, rfl⟩ := ofKind_eq_ok_iff.1 h
    cases modifier <;> simp [Modifier.kind, slot?]
  · rintro (⟨rfl, order, rfl⟩ | ⟨hkind, rfl⟩)
    · exact ⟨.appendAt order, rfl⟩
    · cases kind with
      | appendAt => contradiction
      | normal | skip | append | key | value => exact ⟨_, rfl⟩

namespace Placeholder

variable {raw order name body : Text} {modifier : Modifier} {q : Placeholder}

/-! ## Slots -/

/-- A text that spells a slot: one or more digits. -/
def IsSlot (order : Text) : Prop := order ≠ [] ∧ ∀ c ∈ order, (Digit.ascii? c).isSome = true

theorem isSlot_iff : IsSlot order ↔ ∃ d more, order.mapM Digit.ascii? = some (d :: more) := by
  constructor
  · rintro ⟨hne, hdigits⟩
    cases order with
    | nil => contradiction
    | cons c rest =>
      obtain ⟨digits, hread⟩ := Traversal.exists_forall₂ fun c hc =>
        Option.isSome_iff_exists.1 (hdigits c hc)
      cases hread with
      | cons hc hrest => exact ⟨_, _, Traversal.mapM_eq_some_iff.2 (.cons hc hrest)⟩
  · rintro ⟨d, more, h⟩
    have hread := Traversal.mapM_eq_some_iff.1 h
    refine ⟨?_, fun c hc => ?_⟩
    · rintro rfl
      cases hread
    · obtain ⟨d, -, hd⟩ := Traversal.exists_mem_of_forall₂ hread hc
      exact Option.isSome_iff_exists.2 ⟨d, hd⟩

/-- What behind the last slash is no slot is refused. -/
theorem readSlot_of_not_isSlot (h : ¬ IsSlot order) :
    readSlot raw order = .error (.badSlot raw) := by
  rw [readSlot]
  split
  · rfl
  · rfl
  · next digits hne hread =>
    cases digits with
    | nil => exact absurd rfl hne
    | cons d more => exact absurd (isSlot_iff.2 ⟨d, more, hread⟩) h

/-- A slot is read unless it has too many digits. -/
theorem readSlot_of_isSlot (h : IsSlot order) (raw : Text) :
    (∃ slot, readSlot raw order = .ok slot ∧ order.length ≤ Numeral.limit) ∨
      readSlot raw order = .error (.slotTooLong order.length) ∧ Numeral.limit < order.length := by
  obtain ⟨d, more, hread⟩ := isSlot_iff.1 h
  have hlength := (Traversal.mapM_eq_some_iff.1 hread).length_eq
  simp only [readSlot, hread, hlength]
  by_cases hlimit : (d :: more).length ≤ Numeral.limit
  · exact .inl ⟨_, if_pos hlimit, hlimit⟩
  · exact .inr ⟨if_neg hlimit, Nat.lt_of_not_le hlimit⟩

theorem isSlot_zeros (zeros slot : Nat) :
    IsSlot (List.replicate zeros '0' ++ Numeral.ofNat slot) := by
  obtain ⟨d, more, hdigits⟩ := Numeral.digitsOf_eq_cons slot
  refine isSlot_iff.2 ?_
  rw [Numeral.mapM_ascii?_zeros, hdigits]
  cases zeros with
  | zero => exact ⟨d, more, rfl⟩
  | succ zeros => exact ⟨0, _, rfl⟩

/-- A slot is read from its digits, whatever zeros are in front of them. -/
theorem readSlot_eq_ok_iff {slot : Nat} :
    readSlot raw order = .ok slot ↔
      ∃ zeros, order = List.replicate zeros '0' ++ Numeral.ofNat slot ∧
        order.length ≤ Numeral.limit := by
  constructor
  · intro h
    by_cases hslot : IsSlot order
    · obtain ⟨d, more, hread⟩ := isSlot_iff.1 hslot
      have hlength := (Traversal.mapM_eq_some_iff.1 hread).length_eq
      obtain ⟨zeros, hzeros⟩ := Numeral.exists_zeros hslot.1 hread
      simp only [readSlot, hread, ← hlength] at h
      split at h
      · next hlimit => exact ⟨zeros, by rw [hzeros, Except.ok.inj h], hlimit⟩
      · cases h
    · rw [readSlot_of_not_isSlot hslot] at h
      cases h
  · rintro ⟨zeros, rfl, hlimit⟩
    obtain ⟨d, more, hread⟩ := isSlot_iff.1 (isSlot_zeros zeros slot)
    have hlength := (Traversal.mapM_eq_some_iff.1 hread).length_eq
    have hvalue : Numeral.ofDigits (d :: more) = slot := by
      rw [Numeral.mapM_ascii?_zeros] at hread
      rw [← Option.some.inj hread, Numeral.ofDigits_replicate_append, Numeral.ofDigits_digitsOf]
    simp only [readSlot, hread, ← hlength, if_pos hlimit, hvalue]

/-! ## How a text begins -/

/-- A text without a mark in front. -/
def Unmarked (text : Text) : Prop := ∀ c ∈ text.head?, isMark c = false

/-- The forms of a text: without a mark in front, with one of the three marks, an append either
without a slash or with what stands on both sides of its last one, or with several marks. -/
inductive Form : Text → Prop
  | plain {name : Text} : Unmarked name → Form name
  | append {name : Text} : Unmarked name → '/' ∉ name → Form ('+' :: name)
  | appendAt {name order : Text} :
      Unmarked name → '/' ∉ order → Form ('+' :: (name ++ '/' :: order))
  | key {name : Text} : Unmarked name → Form ('?' :: name)
  | value {name : Text} : Unmarked name → Form ('&' :: name)
  | several {first second : Char} {rest : Text} :
      isMark first = true → isMark second = true → Form (first :: second :: rest)

theorem isMark_iff {c : Char} : isMark c = true ↔ c = '+' ∨ c = '?' ∨ c = '&' := by
  simp [isMark, or_assoc]

theorem unmarked_append_slash_iff : Unmarked (name ++ '/' :: order) ↔ Unmarked name := by
  cases name with
  | nil => simp [Unmarked, isMark]
  | cons c name => simp [Unmarked]

/-- Every text has a form. -/
theorem form (raw : Text) : Form raw := by
  cases raw with
  | nil => exact .plain (by simp [Unmarked])
  | cons first body =>
    by_cases hfirst : isMark first = true
    · by_cases hbody : Unmarked body
      · rcases isMark_iff.1 hfirst with rfl | rfl | rfl
        · cases hcut : cutLast? '/' body with
          | none => exact .append hbody (cutLast?_eq_none_iff.1 hcut)
          | some parts =>
            obtain ⟨rfl, hlast⟩ := cutLast?_eq_some_iff.1 hcut
            exact .appendAt (unmarked_append_slash_iff.1 hbody) hlast
        · exact .key hbody
        · exact .value hbody
      · cases body with
        | nil => exact absurd (by simp [Unmarked]) hbody
        | cons second rest => exact .several hfirst (by simpa [Unmarked] using hbody)
    · exact .plain (by simpa [Unmarked] using hfirst)

theorem span_of_unmarked (h : Unmarked body) :
    body.takeWhile isMark = [] ∧ body.dropWhile isMark = body := by
  cases body with
  | nil => exact ⟨rfl, rfl⟩
  | cons c body => simp [h c rfl]

theorem span_of_mark {mark : Char} (hmark : isMark mark = true) (h : Unmarked body) :
    (mark :: body).takeWhile isMark = [mark] ∧ (mark :: body).dropWhile isMark = body := by
  obtain ⟨htake, hdrop⟩ := span_of_unmarked h
  exact ⟨by rw [List.takeWhile_cons_of_pos hmark, htake],
    by rw [List.dropWhile_cons_of_pos hmark, hdrop]⟩

theorem parse_unmarked (h : Unmarked name) : parse name = .ok (named name .normal name) := by
  obtain ⟨htake, hdrop⟩ := span_of_unmarked h
  rw [parse, htake, hdrop]

theorem parse_key (h : Unmarked name) :
    parse ('?' :: name) = .ok (named name .key ('?' :: name)) := by
  obtain ⟨htake, hdrop⟩ := span_of_mark (rfl : isMark '?' = true) h
  rw [parse, htake, hdrop]
  rfl

theorem parse_value (h : Unmarked name) :
    parse ('&' :: name) = .ok (named name .value ('&' :: name)) := by
  obtain ⟨htake, hdrop⟩ := span_of_mark (rfl : isMark '&' = true) h
  rw [parse, htake, hdrop]
  rfl

theorem parse_eq_parseAppend (h : Unmarked body) :
    parse ('+' :: body) = parseAppend ('+' :: body) body := by
  obtain ⟨htake, hdrop⟩ := span_of_mark (rfl : isMark '+' = true) h
  rw [parse, htake, hdrop]
  rfl

theorem parse_append (h : Unmarked name) (hslash : '/' ∉ name) :
    parse ('+' :: name) = .ok (named name .append ('+' :: name)) := by
  rw [parse_eq_parseAppend h, parseAppend, cutLast?_eq_none_iff.2 hslash]

/-- Behind the last slash a slot is read. -/
theorem parse_appendAt (h : Unmarked name) (hslash : '/' ∉ order) :
    parse ('+' :: (name ++ '/' :: order)) =
      (readSlot ('+' :: (name ++ '/' :: order)) order).map fun slot =>
        named name (.appendAt slot) ('+' :: (name ++ '/' :: order)) := by
  rw [parse_eq_parseAppend (unmarked_append_slash_iff.2 h), parseAppend,
    cutLast?_append_cons hslash]

/-- Several marks are refused. -/
theorem parse_several {first second : Char} {rest : Text} (hfirst : isMark first = true)
    (hsecond : isMark second = true) :
    ∃ marks, parse (first :: second :: rest) =
        .error (.appendWithIndirect marks (first :: second :: rest)) ∨
      parse (first :: second :: rest) = .error (.severalMarks marks (first :: second :: rest)) := by
  refine ⟨first :: second :: rest.takeWhile isMark, ?_⟩
  simp only [parse, List.takeWhile_cons_of_pos hfirst, List.takeWhile_cons_of_pos hsecond]
  split
  · exact .inl rfl
  · exact .inr rfl

/-! ## Writing -/

/-- A name and a modifier that can be written.  The name is not empty and has no mark in front,
the capture is saved, and the name of an append without a slot holds no slash, behind which a
slot would be read. -/
structure WellFormed (name : Text) (modifier : Modifier) : Prop where
  ne_nil : name ≠ []
  unmarked : Unmarked name
  saved : modifier ≠ .skip
  unslashed : modifier = .append → '/' ∉ name

/-- The text of a placeholder, with zeros in front of its slot if it has one. -/
def written (zeros : Nat) (name : Text) : Modifier → Text
  | .normal => name
  | .skip => []
  | .append => '+' :: name
  | .appendAt slot => '+' :: (name ++ '/' :: (List.replicate zeros '0' ++ Numeral.ofNat slot))
  | .key => '?' :: name
  | .value => '&' :: name

theorem IsSlot.slash_notMem (h : IsSlot order) : '/' ∉ order := by
  intro hmem
  have hslash := h.2 '/' hmem
  cases hslash

theorem named_of_ne_nil (h : name ≠ []) (modifier : Modifier) (raw : Text) :
    named name modifier raw = ⟨name, modifier, raw⟩ := by
  rw [named, if_neg h]

/-- What is written is read as what it was written for. -/
theorem parse_written {zeros : Nat} (h : WellFormed name modifier)
    (hslot : ∀ slot, modifier = .appendAt slot →
      (List.replicate zeros '0' ++ Numeral.ofNat slot).length ≤ Numeral.limit) :
    parse (written zeros name modifier) = .ok ⟨name, modifier, written zeros name modifier⟩ := by
  cases modifier with
  | skip => exact absurd rfl h.saved
  | normal => rw [written, parse_unmarked h.unmarked, named_of_ne_nil h.ne_nil]
  | key => rw [written, parse_key h.unmarked, named_of_ne_nil h.ne_nil]
  | value => rw [written, parse_value h.unmarked, named_of_ne_nil h.ne_nil]
  | append => rw [written, parse_append h.unmarked (h.unslashed rfl), named_of_ne_nil h.ne_nil]
  | appendAt slot =>
    rw [written, parse_appendAt h.unmarked (isSlot_zeros zeros slot).slash_notMem,
      readSlot_eq_ok_iff.2 ⟨zeros, rfl, hslot slot rfl⟩, Except.map, named_of_ne_nil h.ne_nil]

theorem ne_nil_of_saved (h : (named name modifier raw).modifier ≠ .skip) : name ≠ [] := by
  rintro rfl
  exact h rfl

/-- What is read was written so, up to zeros in front of the slot. -/
theorem written_of_parse (h : parse raw = .ok q) (hsaved : q.modifier ≠ .skip) :
    WellFormed q.name q.modifier ∧ ∃ zeros, raw = written zeros q.name q.modifier := by
  cases form raw with
  | plain hname =>
    obtain rfl := Except.ok.inj ((parse_unmarked hname).symm.trans h)
    have hne := ne_nil_of_saved hsaved
    rw [named_of_ne_nil hne]
    exact ⟨⟨hne, hname, by simp, by simp⟩, 0, rfl⟩
  | key hname =>
    obtain rfl := Except.ok.inj ((parse_key hname).symm.trans h)
    have hne := ne_nil_of_saved hsaved
    rw [named_of_ne_nil hne]
    exact ⟨⟨hne, hname, by simp, by simp⟩, 0, rfl⟩
  | value hname =>
    obtain rfl := Except.ok.inj ((parse_value hname).symm.trans h)
    have hne := ne_nil_of_saved hsaved
    rw [named_of_ne_nil hne]
    exact ⟨⟨hne, hname, by simp, by simp⟩, 0, rfl⟩
  | append hname hslash =>
    obtain rfl := Except.ok.inj ((parse_append hname hslash).symm.trans h)
    have hne := ne_nil_of_saved hsaved
    rw [named_of_ne_nil hne]
    exact ⟨⟨hne, hname, by simp, fun _ => hslash⟩, 0, rfl⟩
  | @appendAt name order hname hslash =>
    rw [parse_appendAt hname hslash, Traversal.map_eq_ok_iff] at h
    obtain ⟨slot, hread, rfl⟩ := h
    have hne := ne_nil_of_saved hsaved
    rw [named_of_ne_nil hne]
    obtain ⟨zeros, hzeros, -⟩ := readSlot_eq_ok_iff.1 hread
    exact ⟨⟨hne, hname, by simp, by simp⟩, zeros, by rw [written, hzeros]⟩
  | several hfirst hsecond =>
    obtain ⟨marks, hmarks | hmarks⟩ := parse_several hfirst hsecond
    · exact nomatch hmarks.symm.trans h
    · exact nomatch hmarks.symm.trans h

/-! ## Texts that save nothing -/

/-- The texts of placeholders that drop their captures: nothing, a mark alone, and a slot
without a name. -/
inductive Nameless : Text → Prop
  | nothing : Nameless []
  | mark {c : Char} : isMark c = true → Nameless [c]
  | slot {order : Text} :
      IsSlot order → order.length ≤ Numeral.limit → Nameless ('+' :: '/' :: order)

theorem unmarked_nil : Unmarked [] := by simp [Unmarked]

theorem eq_nil_of_dropped {m : Modifier} (hm : m ≠ .skip)
    (h : (named name m raw).modifier = .skip) : name = [] := by
  by_contra hne
  rw [named_of_ne_nil hne] at h
  exact hm h

theorem parse_eq_dropped_iff :
    (∃ q, parse raw = .ok q ∧ q.modifier = .skip) ↔ Nameless raw := by
  constructor
  · rintro ⟨q, h, hskip⟩
    cases form raw with
    | plain hname =>
      obtain rfl := Except.ok.inj ((parse_unmarked hname).symm.trans h)
      obtain rfl := eq_nil_of_dropped (by simp) hskip
      exact .nothing
    | key hname =>
      obtain rfl := Except.ok.inj ((parse_key hname).symm.trans h)
      obtain rfl := eq_nil_of_dropped (by simp) hskip
      exact .mark rfl
    | value hname =>
      obtain rfl := Except.ok.inj ((parse_value hname).symm.trans h)
      obtain rfl := eq_nil_of_dropped (by simp) hskip
      exact .mark rfl
    | append hname hslash =>
      obtain rfl := Except.ok.inj ((parse_append hname hslash).symm.trans h)
      obtain rfl := eq_nil_of_dropped (by simp) hskip
      exact .mark rfl
    | appendAt hname hslash =>
      rw [parse_appendAt hname hslash, Traversal.map_eq_ok_iff] at h
      obtain ⟨slot, hread, rfl⟩ := h
      obtain rfl := eq_nil_of_dropped (by simp) hskip
      obtain ⟨zeros, rfl, hlength⟩ := readSlot_eq_ok_iff.1 hread
      exact .slot (isSlot_zeros zeros slot) hlength
    | several hfirst hsecond =>
      obtain ⟨marks, hmarks | hmarks⟩ := parse_several hfirst hsecond
      · exact nomatch hmarks.symm.trans h
      · exact nomatch hmarks.symm.trans h
  · intro h
    cases h with
    | nothing => exact ⟨_, parse_unmarked unmarked_nil, rfl⟩
    | mark hmark =>
      rcases isMark_iff.1 hmark with rfl | rfl | rfl
      · exact ⟨_, parse_append unmarked_nil (by simp), rfl⟩
      · exact ⟨_, parse_key unmarked_nil, rfl⟩
      · exact ⟨_, parse_value unmarked_nil, rfl⟩
    | @slot order hslot hlength =>
      have hparse := parse_appendAt unmarked_nil hslot.slash_notMem
      rw [List.nil_append] at hparse
      rcases readSlot_of_isSlot hslot ('+' :: '/' :: order) with ⟨slot, hread, -⟩ | ⟨-, hlong⟩
      · exact ⟨dropped ('+' :: '/' :: order), by rw [hparse, hread]; rfl, rfl⟩
      · omega

/-! ## Texts that are refused -/

/-- The texts that are refused with a report, and the code of the report: those with several
marks in front, and appends with something else than a slot behind their last slash. -/
inductive Refused : Report.Code → Text → Prop
  | several {first second : Char} {rest : Text} :
      isMark first = true → isMark second = true → Refused .invalidField (first :: second :: rest)
  | slot {name order : Text} :
      Unmarked name → '/' ∉ order → ¬ IsSlot order →
        Refused .invalidOrder ('+' :: (name ++ '/' :: order))

/-- The texts that ask for a slot with more digits than are read. -/
inductive TooLong : Text → Nat → Prop
  | slot {name order : Text} :
      Unmarked name → IsSlot order → Numeral.limit < order.length →
        TooLong ('+' :: (name ++ '/' :: order)) order.length

/-- An error is reported under a code. -/
def Error.ReportedAs (e : Error) (code : Report.Code) : Prop :=
  ∃ report, (Pattern.Error.placeholder e).report? none .null = some report ∧
    report.kind = .field ∧ report.code = code

theorem parse_of_refused {code : Report.Code} (h : Refused code raw) :
    ∃ e, parse raw = .error e ∧ e.ReportedAs code := by
  cases h with
  | several hfirst hsecond =>
    obtain ⟨marks, hmarks | hmarks⟩ := parse_several hfirst hsecond
    · exact ⟨_, hmarks, _, rfl, rfl, rfl⟩
    · exact ⟨_, hmarks, _, rfl, rfl, rfl⟩
  | slot hname hslash hslot =>
    rw [parse_appendAt hname hslash, readSlot_of_not_isSlot hslot]
    exact ⟨_, rfl, _, rfl, rfl, rfl⟩

theorem parse_of_tooLong {digits : Nat} (h : TooLong raw digits) :
    parse raw = .error (.slotTooLong digits) := by
  cases h with
  | slot hname hslot hlong =>
    rw [parse_appendAt hname hslot.slash_notMem]
    rcases readSlot_of_isSlot hslot _ with ⟨slot, -, hshort⟩ | ⟨hread, -⟩
    · omega
    · rw [hread]
      rfl

/-- A text is read, or it is refused with a report, or it asks for a slot that is too long. -/
theorem parse_cases (raw : Text) :
    (∃ q, parse raw = .ok q) ∨ (∃ code, Refused code raw) ∨ ∃ digits, TooLong raw digits := by
  cases form raw with
  | plain hname => exact .inl ⟨_, parse_unmarked hname⟩
  | key hname => exact .inl ⟨_, parse_key hname⟩
  | value hname => exact .inl ⟨_, parse_value hname⟩
  | append hname hslash => exact .inl ⟨_, parse_append hname hslash⟩
  | several hfirst hsecond => exact .inr (.inl ⟨_, .several hfirst hsecond⟩)
  | @appendAt name order hname hslash =>
    rw [parse_appendAt hname hslash]
    by_cases hslot : IsSlot order
    · rcases readSlot_of_isSlot hslot _ with ⟨slot, hread, -⟩ | ⟨-, hlong⟩
      · exact .inl ⟨_, by rw [hread]; rfl⟩
      · exact .inr (.inr ⟨_, .slot hname hslot hlong⟩)
    · exact .inr (.inl ⟨_, .slot hname hslash hslot⟩)

theorem exists_parse_eq_error_iff {code : Report.Code} :
    (∃ e, parse raw = .error e ∧ e.ReportedAs code) ↔ Refused code raw := by
  refine ⟨?_, parse_of_refused⟩
  rintro ⟨e, he, report, hreport, -, rfl⟩
  rcases parse_cases raw with ⟨q, hq⟩ | ⟨code, hrefused⟩ | ⟨digits, hlong⟩
  · exact nomatch he.symm.trans hq
  · obtain ⟨e', he', report', hreport', -, rfl⟩ := parse_of_refused hrefused
    obtain rfl := Except.error.inj (he.symm.trans he')
    obtain rfl := Option.some.inj (hreport.symm.trans hreport')
    exact hrefused
  · obtain rfl := Except.error.inj (he.symm.trans (parse_of_tooLong hlong))
    cases hreport

/-- What is refused without a report is a slot that is too long. -/
theorem parse_eq_slotTooLong_iff {digits : Nat} :
    parse raw = .error (.slotTooLong digits) ↔ TooLong raw digits := by
  refine ⟨fun h => ?_, parse_of_tooLong⟩
  rcases parse_cases raw with ⟨q, hq⟩ | ⟨code, hrefused⟩ | ⟨found, hlong⟩
  · exact nomatch h.symm.trans hq
  · obtain ⟨e, he, report, hreport, -⟩ := parse_of_refused hrefused
    obtain rfl := Except.error.inj (h.symm.trans he)
    cases hreport
  · cases h.symm.trans (parse_of_tooLong hlong)
    exact hlong

/-- Writing and reading are inverse to each other.  A placeholder that is written is read as what
it was written for, and what is read keeps its text, passes the check of its slot, and is written
as its text up to zeros in front of the slot, unless it drops its capture.  Captures are dropped
by nothing, by a mark alone and by a slot without a name; several marks, and an append with
something else than a slot behind its last slash, are refused with a report; and if no slot is
too long, nothing else is refused.  The check lets a slot through exactly for an ordered append,
and only one that is not negative. -/
theorem parse_inverts_written :
    (∀ name modifier, WellFormed name modifier →
      (∀ slot, modifier = .appendAt slot → (Numeral.ofNat slot).length ≤ Numeral.limit) →
        parse (written 0 name modifier) = .ok ⟨name, modifier, written 0 name modifier⟩) ∧
    (∀ raw q, parse raw = .ok q →
      q.raw = raw ∧
      Modifier.ofKind q.modifier.kind (q.modifier.slot?.map Int.ofNat) = .ok q.modifier ∧
      (q.modifier ≠ .skip →
        WellFormed q.name q.modifier ∧ ∃ zeros, raw = written zeros q.name q.modifier)) ∧
    (∀ raw, (∃ q, parse raw = .ok q ∧ q.modifier = .skip) ↔ Nameless raw) ∧
    (∀ raw code, (∃ e, parse raw = .error e ∧ e.ReportedAs code) ↔ Refused code raw) ∧
    (∀ raw, HasShortSlot raw → (∃ q, parse raw = .ok q) ∨ ∃ code, Refused code raw) ∧
    ∀ kind slot, (∃ modifier, Modifier.ofKind kind slot = .ok modifier) ↔
      (kind = .appendAt ∧ ∃ order : Nat, slot = some (order : Int)) ∨
        (kind ≠ .appendAt ∧ slot = none) := by
  refine ⟨fun name modifier h hslot => parse_written h hslot, fun raw q h => ?_,
    fun raw => parse_eq_dropped_iff, fun raw code => exists_parse_eq_error_iff, fun raw h => ?_,
    fun kind slot => Modifier.exists_ofKind_iff⟩
  · exact ⟨raw_of_parse h, Modifier.ofKind_eq_ok_iff.2 ⟨rfl, rfl⟩, written_of_parse h⟩
  · rcases parse_cases raw with hread | hrefused | ⟨digits, hlong⟩
    · exact .inl hread
    · exact .inr hrefused
    · exact absurd (parse_of_tooLong hlong) (parse_ne_slotTooLong h digits)

/-- Only the last slash counts, and zeros in front of a slot do not. -/
example : parse "+a/b/007" = .ok ⟨"a/b", .appendAt 7, "+a/b/007"⟩ := by decide

end Placeholder

end Dissection
